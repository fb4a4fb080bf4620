import Roster.Proofs.Outcome
import Roster.Proofs.Script.Spelling

/-!
# `Roster.Proofs.Script.Feeds`: the lexemes of a script

A feed is all that a reader of lexemes is given. This is what the readers of statements and
programs use of it.

* `spelled_of_mem_ofScript`: the items of a script are tokens that can be written. So none of them
  is the end of the script, which comes from the ending alone, and a reader at an end has read
  everything.
* `lexemes_eq_ok_iff`: a script has a list of lexemes exactly if no item is a fault and the
  ending is the end of the script; the list is the items and that end. `lexemes_eq` says the same
  through `front`, the lexemes in front of the first fault, which a script with a fault has too.
* `Reads` says that a text is read as some tokens wherever it starts, for what stands before a text
  moves it. Its lemmas put such texts together from the right.
* `exists_script`: tokens that can be written are those of a script, the one that has them one
  after the other with a blank behind each.
-/

set_option autoImplicit false

namespace Roster

namespace Feed

/-- Cutting a text into lexemes, one lexeme at a time. This is how the function is unfolded, as its
own equation is about the two matches and their proofs. -/
theorem ofChars_eq (cs : List Char) (p : Position) :
    ofChars cs p =
      match Lexer.skipTrivia false cs p with
      | ([], start) => ⟨[], .eof start⟩
      | (c :: more, start) =>
        match Lexer.scanAt c more with
        | .stuck => ⟨[], .stuck c start⟩
        | .taken outcome text rest =>
          let item := match outcome with
            | .ok token => .ok ⟨token, String.ofList text, start⟩
            | .error fault => .error (fault start)
          let f := ofChars rest (start.afterAll text)
          ⟨item :: f.items, f.ending⟩ := by
  fun_cases ofChars cs p with
  | case1 start hskip => rw [show Lexer.skipTrivia false cs p = ([], start) from Prod.ext hskip rfl]
  | case2 start c more hskip hscan =>
    rw [show Lexer.skipTrivia false cs p = (c :: more, start) from Prod.ext hskip rfl]
    dsimp only
    rw [hscan]
  | case3 start c more hskip outcome text rest hscan =>
    rw [show Lexer.skipTrivia false cs p = (c :: more, start) from Prod.ext hskip rfl]
    dsimp only
    rw [hscan]
    cases outcome <;> rfl

/-- A token that is read is the first item; what is left is read behind it. -/
theorem ofChars_of_token {cs more text rest : List Char} {p start : Position} {c : Char}
    {t : Token} (hskip : Lexer.skipTrivia false cs p = (c :: more, start))
    (hscan : Lexer.scanAt c more = .taken (.ok t) text rest) :
    ofChars cs p =
      let f := ofChars rest (start.afterAll text)
      ⟨.ok ⟨t, String.ofList text, start⟩ :: f.items, f.ending⟩ := by
  rw [ofChars_eq, hskip]
  dsimp only
  rw [hscan]

/-- Behind what has been read less is left. -/
theorem length_rest_lt {cs more text rest : List Char} {p start : Position} {c : Char}
    {outcome : Except (Position → LexError) Token}
    (hskip : Lexer.skipTrivia false cs p = (c :: more, start))
    (hscan : Lexer.scanAt c more = .taken outcome text rest) : rest.length < cs.length := by
  obtain ⟨htext, hne⟩ := Lexer.append_of_scanAt hscan
  have hskipped := Lexer.length_skipTrivia_le false cs p
  have hlength := congrArg List.length htext
  have hpos := List.length_pos_iff.2 hne
  rw [hskip] at hskipped
  simp only [List.length_append, List.length_cons] at hskipped hlength
  omega

/-- Every token of a text can be written. -/
theorem spelled_of_mem_ofChars {cs : List Char} {p : Position} {l : Lexeme}
    (h : .ok l ∈ (ofChars cs p).items) : l.token.Spelled := by
  fun_induction ofChars cs p with
  | case1 => exact absurd h (List.not_mem_nil)
  | case2 => exact absurd h (List.not_mem_nil)
  | case3 cs p start c more hskip outcome text rest hscan item f ih =>
    rcases List.mem_cons.1 h with hl | hl
    · cases outcome with
      | error fault =>
        change Except.ok l = .error (fault start) at hl
        cases hl
      | ok token =>
        change Except.ok l = .ok ⟨token, String.ofList text, start⟩ at hl
        cases hl
        exact Lexer.spelled_of_scanAt hscan
    · exact ih hl

/-- Every token of a script can be written. -/
theorem spelled_of_mem_ofScript {script : String} {l : Lexeme}
    (h : .ok l ∈ (ofScript script).items) : l.token.Spelled :=
  spelled_of_mem_ofChars h

/-- Items none of which is a fault, and the end of the script, are all lexemes there are. The end of
the script is the last of them. -/
theorem mapM_untilStop_eq_ok_iff {ending : Ending} {items : List LexItem} {ls : List Lexeme} :
    (untilStop ending items).mapM id = .ok ls
      ↔ ∃ ls' p, items = ls'.map .ok ∧ ending = .eof p ∧ ls = ls' ++ [.atEnd p] := by
  induction items generalizing ls with
  | nil =>
    rw [untilStop, List.mapM_cons, bind_eq_ok_iff]
    constructor
    · rintro ⟨l, hl, h⟩
      cases h
      cases ending with
      | eof p =>
        cases hl
        exact ⟨[], p, rfl, rfl, rfl⟩
      | stuck c p => cases hl
    · rintro ⟨ls', p, hitems, rfl, rfl⟩
      obtain rfl := List.map_eq_nil_iff.1 hitems.symm
      exact ⟨_, rfl, rfl⟩
  | cons item items ih =>
    cases item with
    | error e =>
      -- A fault stops the list before its end.
      constructor
      · intro h
        cases h
      · rintro ⟨ls', p, hitems, -⟩
        cases ls' <;> cases hitems
    | ok l =>
      rw [untilStop, List.mapM_cons, bind_eq_ok_iff]
      constructor
      · rintro ⟨l', hl, h⟩
        cases hl
        obtain ⟨rest, hrest, h⟩ := bind_eq_ok_iff.1 h
        cases h
        obtain ⟨ls', p, rfl, hp, rfl⟩ := ih.1 hrest
        exact ⟨l :: ls', p, rfl, hp, rfl⟩
      · rintro ⟨ls', p, hitems, hp, rfl⟩
        cases ls' with
        | nil => cases hitems
        | cons l' ls' =>
          cases hitems
          exact ⟨l, rfl, bind_eq_ok_iff.2 ⟨_, ih.2 ⟨ls', p, rfl, hp, rfl⟩, rfl⟩⟩

/-- The lexemes of a feed are its items, if none is a fault, and the end of the script. -/
theorem lexemes_eq_ok_iff {f : Feed} {ls : List Lexeme} :
    f.lexemes = .ok ls
      ↔ ∃ ls' p, f.items = ls'.map .ok ∧ f.ending = .eof p ∧ ls = ls' ++ [.atEnd p] :=
  mapM_untilStop_eq_ok_iff

/-! ### Up to the first fault -/

/-- The lexemes of a feed up to its first fault, or up to the end of the script. -/
def front (f : Feed) : List Lexeme := (untilStop f.ending f.items).filterMap Except.toOption

/-- The first fault of a feed. -/
def fault? (f : Feed) : Option LexError :=
  (untilStop f.ending f.items).findSome? fun
    | .error e => some e
    | .ok _ => none

/-- A feed has the lexemes in front of its first fault, if it has none; else it has that fault. -/
theorem lexemes_eq (f : Feed) :
    f.lexemes = match f.fault? with
      | none => .ok f.front
      | some e => .error e := by
  obtain ⟨items, ending⟩ := f
  induction items with
  | nil => cases ending <;> rfl
  | cons item items ih =>
    cases item with
    | error e => rfl
    | ok l =>
      show (untilStop ending (.ok l :: items)).mapM id
        = match fault? ⟨items, ending⟩ with
          | none => .ok (l :: front ⟨items, ending⟩)
          | some e => .error e
      change (untilStop ending items).mapM id = _ at ih
      rw [untilStop, List.mapM_cons, ih]
      cases fault? ⟨items, ending⟩ <;> rfl

/-- In front of the first fault of a script all tokens can be written, but for the end of the
script, which is the last one. -/
theorem front_ofScript_eq_append {script : String} {before after : List Lexeme} {l : Lexeme}
    (h : (ofScript script).front = before ++ l :: after) :
    (∀ b ∈ before, b.token.Spelled) ∧ (l.token.Spelled ∨ l.token = .eof ∧ after = []) := by
  have hspelled : ∀ l, .ok l ∈ (ofScript script).items → l.token.Spelled :=
    fun _ => spelled_of_mem_ofScript
  cases hfeed : ofScript script with
  | mk items ending =>
    rw [hfeed] at h hspelled
    clear hfeed
    induction items generalizing before with
    | nil =>
      -- There is one lexeme at most, the end.
      cases ending with
      | stuck c p =>
        change [] = before ++ l :: after at h
        simp at h
      | eof p =>
        change [.atEnd p] = before ++ l :: after at h
        cases before with
        | nil =>
          cases h
          exact ⟨by simp, .inr ⟨rfl, rfl⟩⟩
        | cons b before => simp at h
    | cons item items ih =>
      cases item with
      | error e =>
        change [] = before ++ l :: after at h
        simp at h
      | ok x =>
        change x :: front ⟨items, ending⟩ = before ++ l :: after at h
        cases before with
        | nil =>
          cases h
          exact ⟨by simp, .inl (hspelled _ List.mem_cons_self)⟩
        | cons b before =>
          obtain ⟨rfl, hrest⟩ := List.cons.inj h
          obtain ⟨hbefore, hl⟩ := ih (fun l hl => hspelled l (List.mem_cons_of_mem _ hl)) hrest
          exact ⟨List.forall_mem_cons.2 ⟨hspelled _ List.mem_cons_self, hbefore⟩, hl⟩

/-! ### Scripts with given tokens -/

/-- The feed of an empty text is the end of the script. -/
theorem ofChars_nil (p : Position) : ofChars [] p = ⟨[], .eof p⟩ := by
  rw [ofChars_eq]
  rfl

/-- A blank in front of a text is skipped. -/
theorem ofChars_blank {c : Char} (hc : Text.isBlank c = true) (cs : List Char) (p : Position) :
    ofChars (c :: cs) p = ofChars cs (p.after c) := by
  rw [ofChars_eq, ofChars_eq]
  simp [Lexer.skipTrivia, hc]

/-- A semicolon needs no delimiter behind it. -/
theorem ofChars_semicolon (cs : List Char) (p : Position) :
    ofChars (';' :: cs) p =
      let f := ofChars cs (p.after ';')
      ⟨.ok ⟨.semicolon, ";", p⟩ :: f.items, f.ending⟩ := by
  rw [ofChars_eq]
  rfl

/-- A token in front of a delimiter is the first of its text. -/
theorem ofChars_written {t : Token} {text : List Char} (h : t.WrittenAs text) {d : Char}
    (hd : Lexer.Delimits d) (cs : List Char) (p : Position) :
    ofChars (text ++ d :: cs) p =
      let f := ofChars (d :: cs) (p.afterAll text)
      ⟨.ok ⟨t, String.ofList text, p⟩ :: f.items, f.ending⟩ := by
  obtain ⟨c, more, rfl, hblank, hslash, hscan⟩ := h
  have hskip : Lexer.skipTrivia false (c :: (more ++ d :: cs)) p
      = (c :: (more ++ d :: cs), p) := by
    simp [Lexer.skipTrivia, hblank, hslash]
  exact ofChars_of_token hskip (Lexer.scanAt_append_of_token hd hscan cs)

/-- Whether a text is read as tokens, wherever it starts. -/
def Reads (cs : List Char) (ts : List Token) : Prop :=
  ∀ p, ∃ (ls : List Lexeme) (q : Position),
    ofChars cs p = ⟨ls.map .ok, .eof q⟩ ∧ ls.map Lexeme.token = ts

namespace Reads

variable {c d : Char} {cs text : List Char} {t : Token} {ts : List Token}

/-- Nothing is read from an empty text. -/
theorem nil : Reads [] [] := fun p => ⟨[], p, ofChars_nil p, rfl⟩

/-- Blanks in front of a text change nothing about its tokens. -/
theorem blank (hc : Text.isBlank c = true) (h : Reads cs ts) : Reads (c :: cs) ts := by
  intro p
  rw [ofChars_blank hc]
  exact h _

/-- A semicolon in front of a text is one token more, whatever follows. -/
theorem semicolon (h : Reads cs ts) : Reads (';' :: cs) (.semicolon :: ts) := by
  intro p
  obtain ⟨ls, q, hcs, rfl⟩ := h (p.after ';')
  refine ⟨⟨.semicolon, ";", p⟩ :: ls, q, ?_, rfl⟩
  rw [ofChars_semicolon, hcs]
  rfl

/-- A token in front of a text is one token more, if a character follows that ends it. -/
theorem token (ht : t.WrittenAs text) (hd : Lexer.Delimits d) (h : Reads (d :: cs) ts) :
    Reads (text ++ d :: cs) (t :: ts) := by
  intro p
  obtain ⟨ls, q, hcs, rfl⟩ := h (p.afterAll text)
  refine ⟨⟨t, String.ofList text, p⟩ :: ls, q, ?_, rfl⟩
  rw [ofChars_written ht hd, hcs]
  rfl

end Reads

/-- Tokens that can be written are those of some text. -/
theorem exists_reads {ts : List Token} (h : ∀ t ∈ ts, t.Spelled) : ∃ cs, Reads cs ts := by
  induction ts with
  | nil => exact ⟨[], .nil⟩
  | cons t ts ih =>
    obtain ⟨ht, hts⟩ := List.forall_mem_cons.1 h
    obtain ⟨text, htext⟩ := ht.exists_writtenAs
    obtain ⟨cs, hcs⟩ := ih hts
    -- With the blank no token runs into the next one.
    have hblank : Reads (' ' :: cs) ts := hcs.blank rfl
    exact ⟨text ++ ' ' :: cs, hblank.token htext Lexer.delimits_blank⟩

/-- Tokens that can be written are those of some script. -/
theorem exists_script {ts : List Token} (h : ∀ t ∈ ts, t.Spelled) :
    ∃ script ls, (ofScript script).lexemes = .ok ls ∧ ls.map Lexeme.token = ts ++ [.eof] := by
  obtain ⟨cs, hcs⟩ := exists_reads h
  obtain ⟨ls, q, hfeed, rfl⟩ := hcs .start
  refine ⟨String.ofList cs, ls ++ [.atEnd q], lexemes_eq_ok_iff.2 ⟨ls, q, ?_, ?_, rfl⟩, ?_⟩
  · rw [ofScript, String.toList_ofList, hfeed]
  · rw [ofScript, String.toList_ofList, hfeed]
  · rw [List.map_append]
    rfl

end Feed

end Roster
