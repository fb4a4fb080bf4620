import Roster.Proofs.Script.Acceptance
import Roster.Proofs.Script.Tiling

/-!
# `Roster.Proofs.Script.Concatenation`: scripts one after the other

A script that has lexemes may be followed by any other script on a new line: nothing of the first
one reaches into the second, and the second one is read as it would be on its own, some lines
further down.

* `ofChars_append_lineFeed` is the seam. A line feed ends a comment and every token, so what is
  read in front of it does not depend on what stands behind (`Lexer.scanAt_append_of_token`). The
  induction is on the first text, one lexeme at a time. Only a string that is not closed would
  read on, and a script with lexemes has none.
* `ofChars_down` moves a text to another line. Only the lines change: the line feed of the seam
  puts the second script back into the first column.
* `Feed.ofScript_append` puts the two together, and `parse_append` takes it to programs.
* `parse_of_lineFeed` takes a line feed off the end of a program. It serves scripts that are
  put together from lines.
-/

set_option autoImplicit false

namespace Roster

/-! ### Further down -/

/-- The position some lines further down. -/
def Position.down (lines : Nat) (p : Position) : Position := { p with line := p.line + lines }

/-- The fault some lines further down. -/
def LexError.down (lines : Nat) : LexError → LexError
  | unexpectedChar c p => unexpectedChar c (p.down lines)
  | unknownWord w p => unknownWord w (p.down lines)
  | unterminatedString p => unterminatedString (p.down lines)

/-- The lexeme some lines further down. -/
def Lexeme.down (lines : Nat) (l : Lexeme) : Lexeme := { l with position := l.position.down lines }

/-- The item some lines further down. -/
def LexItem.down (lines : Nat) : LexItem → LexItem
  | .ok l => .ok (l.down lines)
  | .error e => .error (e.down lines)

/-- The ending some lines further down. -/
def Ending.down (lines : Nat) : Ending → Ending
  | eof p => eof (p.down lines)
  | stuck c p => stuck c (p.down lines)

/-- The feed some lines further down. -/
def Feed.down (lines : Nat) (f : Feed) : Feed :=
  ⟨f.items.map (LexItem.down lines), f.ending.down lines⟩

namespace Position

variable (lines : Nat) (p : Position)

/-- A character moves a position on alike, however many lines above it. -/
theorem down_after (c : Char) : (p.down lines).after c = (p.after c).down lines := by
  by_cases hc : c = '\n'
  · simp [after, down, hc]
    omega
  · simp [after, down, hc]

/-- So do any characters. -/
theorem down_afterAll (cs : List Char) :
    (p.down lines).afterAll cs = (p.afterAll cs).down lines := by
  induction cs generalizing p with
  | nil => rfl
  | cons c cs ih =>
    have hstep := ih (p.after c)
    rw [← down_after] at hstep
    exact hstep

/-- Behind a line feed a script starts as it does at its start, some lines further down. -/
theorem behind_lineFeed (cs : List Char) :
    behind (cs ++ ['\n']) = start.down (cs.count '\n' + 1) := by
  rw [behind_concat]
  simp [behind, after, start, down]
  omega

end Position

/-- What is skipped does not depend on the line. -/
theorem skipTrivia_down (lines : Nat) (inComment : Bool) (cs : List Char) (p : Position) :
    Lexer.skipTrivia inComment cs (p.down lines)
      = ((Lexer.skipTrivia inComment cs p).1, (Lexer.skipTrivia inComment cs p).2.down lines) := by
  induction cs generalizing inComment p with
  | nil => rfl
  | cons c cs ih =>
    simp only [Lexer.skipTrivia, Position.down_after, ih]
    split_ifs <;> rfl

/-- A fault does not depend on the line. -/
theorem fault_down {c : Char} {cs text rest : List Char} {fault : Position → LexError}
    (h : Lexer.scanAt c cs = .taken (.error fault) text rest) (lines : Nat) (p : Position) :
    fault (p.down lines) = (fault p).down lines := by
  rcases Lexer.scanAt_error_cases h with ⟨hword, -⟩ | ⟨hstring, -⟩
  · obtain ⟨rfl, -, -⟩ := Lexer.scanWord_error hword
    rfl
  · obtain ⟨rfl, -, -, -⟩ := Lexer.scanString_error hstring
    rfl

/-- What is read does not depend on the line. So a script that stands behind another one is cut into
the same lexemes, further down. -/
theorem ofChars_down (lines : Nat) (cs : List Char) (p : Position) :
    Feed.ofChars cs (p.down lines) = (Feed.ofChars cs p).down lines := by
  induction hn : cs.length using Nat.strong_induction_on generalizing cs p with
  | _ n ih =>
    subst hn
    -- What is skipped and what is read are the same, and only positions are passed on.
    rw [Feed.ofChars_eq, Feed.ofChars_eq cs p, skipTrivia_down]
    cases hskip : Lexer.skipTrivia false cs p with
    | mk left start =>
      cases left with
      | nil => rfl
      | cons c more =>
        dsimp only
        cases hscan : Lexer.scanAt c more with
        | stuck => rfl
        | taken outcome text rest =>
          have hrest := ih rest.length (Feed.length_rest_lt hskip hscan) rest
            (start.afterAll text) rfl
          dsimp only
          rw [Position.down_afterAll, hrest]
          cases outcome with
          | ok token => rfl
          | error fault =>
            dsimp only
            rw [fault_down hscan]
            rfl

/-! ### Texts without faults -/

/-- Whether a text at the position `p` is cut into the lexemes `ls`, and its end is at `q`. -/
inductive Lexes : List Char → Position → List Lexeme → Position → Prop
  | atEnd {cs : List Char} {p q : Position} (hskip : Lexer.skipTrivia false cs p = ([], q)) :
    Lexes cs p [] q
  | token {cs more text rest : List Char} {c : Char} {p start q : Position} {t : Token}
    {ls : List Lexeme} (hskip : Lexer.skipTrivia false cs p = (c :: more, start))
    (hscan : Lexer.scanAt c more = .taken (.ok t) text rest)
    (hrest : Lexes rest (start.afterAll text) ls q) :
    Lexes cs p (⟨t, String.ofList text, start⟩ :: ls) q

namespace Lexes

variable {cs : List Char} {p q : Position} {ls : List Lexeme}

/-- The feed of a text that has lexemes is these, and then the end of the script. -/
theorem ofChars_eq (h : Lexes cs p ls q) : Feed.ofChars cs p = ⟨ls.map .ok, .eof q⟩ := by
  induction h with
  | atEnd hskip => rw [Feed.ofChars_eq, hskip]; rfl
  | token hskip hscan hrest ih =>
    rw [Feed.ofChars_of_token hskip hscan, ih]
    rfl

/-- A text whose feed has no fault has the lexemes of the feed. The induction is on the length,
since an item takes many characters at once. -/
theorem of_ofChars (h : Feed.ofChars cs p = ⟨ls.map .ok, .eof q⟩) : Lexes cs p ls q := by
  induction hn : cs.length using Nat.strong_induction_on generalizing cs p ls with
  | _ n ih =>
    subst hn
    rw [Feed.ofChars_eq] at h
    cases hskip : Lexer.skipTrivia false cs p with
    | mk left start =>
      rw [hskip] at h
      cases left with
      | nil =>
        obtain ⟨hitems, hending⟩ := Feed.mk.inj h
        cases List.map_eq_nil_iff.1 hitems.symm
        cases hending
        exact .atEnd hskip
      | cons c more =>
        dsimp only at h
        cases hscan : Lexer.scanAt c more with
        | stuck =>
          rw [hscan] at h
          cases (Feed.mk.inj h).2
        | taken outcome text rest =>
          rw [hscan] at h
          obtain ⟨hitems, hending⟩ := Feed.mk.inj h
          cases ls with
          | nil => cases hitems
          | cons l ls =>
            -- The first item is a lexeme, and the rest of the feed is that of the text behind it.
            obtain ⟨hitem, hleft⟩ := List.cons.inj hitems
            cases outcome with
            | error fault => cases hitem
            | ok t =>
              cases hitem
              have hrest : Feed.ofChars rest (start.afterAll text) = ⟨ls.map .ok, .eof q⟩ :=
                congr (congrArg Feed.mk hleft) hending
              exact .token hskip hscan (ih _ (Feed.length_rest_lt hskip hscan) hrest rfl)

/-- The end of a text is behind all of its characters. -/
theorem position_eq (h : Lexes cs p ls q) : q = p.afterAll cs := by
  induction h with
  | @atEnd cs p q hskip =>
    obtain ⟨gap, hsplit, hposition, -⟩ := exists_skipped cs p
    rw [hskip] at hsplit hposition
    dsimp only at hsplit hposition
    rw [hposition, hsplit, List.append_nil]
  | @token cs more text rest c p start q t ls hskip hscan hrest ih =>
    obtain ⟨gap, hsplit, hposition, -⟩ := exists_skipped cs p
    obtain ⟨htext, -⟩ := Lexer.append_of_scanAt hscan
    rw [hskip] at hsplit hposition
    dsimp only at hsplit hposition
    rw [ih, hposition, hsplit, ← htext, Position.afterAll, Position.afterAll, Position.afterAll,
      Position.afterAll, List.foldl_append, List.foldl_append]

end Lexes

/-! ### The seam -/

/-- A line feed ends the trivia that stand before it, a comment included, and is trivia itself. -/
theorem skipTrivia_append_lineFeed (inComment : Bool) (cs more : List Char) (p : Position) :
    Lexer.skipTrivia inComment (cs ++ '\n' :: more) p
      = match Lexer.skipTrivia inComment cs p with
        | ([], q) => Lexer.skipTrivia false more (q.after '\n')
        | (c :: rest, q) => (c :: (rest ++ '\n' :: more), q) := by
  have hblank : Text.isBlank '\n' = true := rfl
  induction cs generalizing inComment p with
  | nil => cases inComment <;> simp [Lexer.skipTrivia, hblank]
  | cons c cs ih =>
    have hhead : (cs ++ '\n' :: more).head? = some '/' ↔ cs.head? = some '/' := by
      cases cs <;> simp
    simp only [List.cons_append, Lexer.skipTrivia, ih, beq_iff_eq, Bool.and_eq_true, hhead]
    split_ifs <;> rfl

/-- Behind a text without faults and a line feed, the rest is read as if it stood alone there. -/
theorem Lexes.ofChars_append_lineFeed {cs : List Char} {p q : Position} {ls : List Lexeme}
    (h : Lexes cs p ls q) (more : List Char) :
    Feed.ofChars (cs ++ '\n' :: more) p =
      let f := Feed.ofChars more (q.after '\n')
      ⟨ls.map .ok ++ f.items, f.ending⟩ := by
  induction h with
  | atEnd hskip =>
    rw [Feed.ofChars_eq, skipTrivia_append_lineFeed, hskip]
    exact (Feed.ofChars_eq _ _).symm
  | @token cs left text rest c p start q t ls hskip hscan hrest ih =>
    -- Neither the trivia nor the token reach the line feed, so it is still there for the rest.
    have hskip' := skipTrivia_append_lineFeed false cs more p
    rw [hskip] at hskip'
    have hscan' := Lexer.scanAt_append_of_token Lexer.delimits_lineFeed hscan more
    rw [Feed.ofChars_of_token hskip' hscan', ih]
    rfl

/-- A token that is read in front of a line feed is read without it. -/
theorem exists_scanAt_of_lineFeed {c : Char} {cs text rest : List Char} {t : Token}
    (h : Lexer.scanAt c (cs ++ ['\n']) = .taken (.ok t) text rest) :
    ∃ left, Lexer.scanAt c cs = .taken (.ok t) text left ∧ rest = left ++ ['\n'] := by
  -- The quote that ends a string is not the line feed, so it stands before that.
  have hclosed : c = '"' → '"' ∈ cs := by
    intro hc
    simpa using Lexer.quote_mem_of_scanAt h hc
  rw [Lexer.scanAt_append Lexer.delimits_lineFeed hclosed] at h
  cases hscan : Lexer.scanAt c cs with
  | stuck =>
    rw [hscan] at h
    cases h
  | taken outcome text' left =>
    rw [hscan] at h
    cases h
    exact ⟨left, rfl, rfl⟩

/-- A text that has no fault in front of a line feed has none without it. -/
theorem Lexes.of_lineFeed {cs : List Char} {p q : Position} {ls : List Lexeme}
    (h : Lexes (cs ++ ['\n']) p ls q) : ∃ q', Lexes cs p ls q' := by
  generalize happend : cs ++ ['\n'] = text at h
  induction h generalizing cs with
  | @atEnd _ p q hskip =>
    subst happend
    rw [skipTrivia_append_lineFeed] at hskip
    -- What is left without the line feed would be left with it.
    cases hleft : Lexer.skipTrivia false cs p with
    | mk left start =>
      rw [hleft] at hskip
      cases left with
      | nil => exact ⟨start, .atEnd hleft⟩
      | cons c left => cases hskip
  | @token _ more text rest c p start q t ls hskip hscan hrest ih =>
    subst happend
    rw [skipTrivia_append_lineFeed] at hskip
    cases hleft : Lexer.skipTrivia false cs p with
    | mk left start' =>
      rw [hleft] at hskip
      cases left with
      | nil => cases hskip
      | cons c' left =>
        cases hskip
        obtain ⟨left', hscan', rfl⟩ := exists_scanAt_of_lineFeed hscan
        obtain ⟨q', hrest'⟩ := ih rfl
        exact ⟨q', .token hleft hscan' hrest'⟩

/-! ### Scripts -/

namespace Feed

/-- Lexemes come first in an iteration. -/
theorem untilStop_append (ending : Ending) (ls : List Lexeme) (items : List LexItem) :
    untilStop ending (ls.map .ok ++ items) = ls.map .ok ++ untilStop ending items := by
  induction ls with
  | nil => rfl
  | cons l ls ih => exact congrArg (.ok l :: ·) ih

/-- An iteration further down gives the same items further down. -/
theorem untilStop_down (lines : Nat) (ending : Ending) (items : List LexItem) :
    untilStop (ending.down lines) (items.map (LexItem.down lines))
      = (untilStop ending items).map (LexItem.down lines) := by
  induction items with
  | nil => cases ending <;> rfl
  | cons item items ih =>
    cases item with
    | error e => rfl
    | ok l => exact congrArg (.ok (l.down lines) :: ·) ih

/-- A script behind a script without faults is read as it is on its own, further down. -/
theorem ofScript_append {a : String} {ls : List Lexeme} {q : Position}
    (h : ofScript a = ⟨ls.map .ok, .eof q⟩) (b : String) :
    ofScript (a ++ "\n" ++ b) =
      let f := (ofScript b).down (a.toList.count '\n' + 1)
      ⟨ls.map .ok ++ f.items, f.ending⟩ := by
  have hlexes : Lexes a.toList .start ls q := .of_ofChars h
  -- Behind the line feed the second script starts in the first column.
  have hseam : q.after '\n' = Position.start.down (a.toList.count '\n' + 1) := by
    have hstart : Position.start = .behind [] := rfl
    rw [hlexes.position_eq, hstart, ← Position.behind_append, ← Position.behind_concat,
      List.nil_append, Position.behind_lineFeed]
    rfl
  have hchars : (a ++ "\n" ++ b).toList = a.toList ++ '\n' :: b.toList := by simp
  rw [ofScript, hchars, hlexes.ofChars_append_lineFeed, hseam, ofChars_down]
  rfl

/-- A script that has lexemes has a feed without faults. -/
theorem ofScript_of_lexemes {script : String} {ls : List Lexeme}
    (h : (ofScript script).lexemes = .ok ls) :
    ∃ front q, ls = front ++ [.atEnd q] ∧ ofScript script = ⟨front.map .ok, .eof q⟩ := by
  obtain ⟨front, q, hitems, hending, rfl⟩ := lexemes_eq_ok_iff.1 h
  exact ⟨front, q, rfl, congr (congrArg Feed.mk hitems) hending⟩

end Feed

open Grammar

/-- The tokens in front of the end of a program are those of its statements. -/
theorem statements_tokens_of_tree {t : ProgramTree} {front : List Lexeme} {q : Position}
    (h : t.tokens = (front ++ [Lexeme.atEnd q]).map Lexeme.token) :
    t.statements.flatMap StatementTree.tokens = front.map Lexeme.token := by
  rw [ProgramTree.tokens, List.map_append] at h
  exact List.append_inj_left' h rfl

/-- A script is the program that is derived, if its tokens are those of the statements. -/
theorem parse_of_statements {script : String} {trees : List StatementTree} {front : List Lexeme}
    {q : Position} (hfeed : Feed.ofScript script = ⟨front.map .ok, .eof q⟩) (hne : trees ≠ [])
    (h : trees.flatMap StatementTree.tokens = front.map Lexeme.token) :
    Program.parse script = .ok (trees.map StatementTree.statement) := by
  have hlexemes : (Feed.ofScript script).lexemes = .ok (front ++ [.atEnd q]) :=
    Feed.lexemes_eq_ok_iff.2 ⟨front, q, by rw [hfeed], by rw [hfeed], rfl⟩
  have htokens : (⟨trees, hne⟩ : ProgramTree).tokens
      = (front ++ [Lexeme.atEnd q]).map Lexeme.token := by
    rw [ProgramTree.tokens, h, List.map_append]
    rfl
  exact parse_of_tree hlexemes htokens

/-- A program behind a program is read as its statements, behind those of the first one. It is read
by its derivation: those of the two programs, one behind the other, derive the lexemes of both
scripts. -/
theorem parse_append {a b : String} {p q : Program} (hp : Program.parse a = .ok p)
    (hq : Program.parse b = .ok q) : Program.parse (a ++ "\n" ++ b) = .ok (p ++ q) := by
  obtain ⟨as, ta, has, hta, rfl⟩ := exists_tree_of_parse hp
  obtain ⟨bs, tb, hbs, htb, rfl⟩ := exists_tree_of_parse hq
  obtain ⟨front, pos, rfl, hfeed⟩ := Feed.ofScript_of_lexemes has
  obtain ⟨back, pos', rfl, hfeed'⟩ := Feed.ofScript_of_lexemes hbs
  have htokens := statements_tokens_of_tree hta
  have htokens' := statements_tokens_of_tree htb
  -- The lexemes of the second script keep their tokens where they have moved.
  let lines := a.toList.count '\n' + 1
  have hmoved : (back.map (Lexeme.down lines)).map Lexeme.token = back.map Lexeme.token := by
    rw [List.map_map]
    rfl
  have hboth : Feed.ofScript (a ++ "\n" ++ b)
      = ⟨(front ++ back.map (Lexeme.down lines)).map .ok, .eof (pos'.down lines)⟩ := by
    rw [Feed.ofScript_append hfeed, hfeed', List.map_append, List.map_map]
    simp only [Feed.down, List.map_map]
    rfl
  have hne : ta.statements ++ tb.statements ≠ [] :=
    List.append_ne_nil_of_left_ne_nil ta.statements_ne_nil _
  have hparse := parse_of_statements hboth hne (by
    rw [List.flatMap_append, htokens, htokens', List.map_append, hmoved])
  rw [hparse, List.map_append]
  rfl

/-- A line feed at its end does not make a script a program. -/
theorem parse_of_lineFeed {script : String} {p : Program}
    (h : Program.parse (script ++ "\n") = .ok p) : Program.parse script = .ok p := by
  obtain ⟨ls, t, hls, ht, rfl⟩ := exists_tree_of_parse h
  obtain ⟨front, pos, rfl, hfeed⟩ := Feed.ofScript_of_lexemes hls
  have hchars : (script ++ "\n").toList = script.toList ++ ['\n'] := by simp
  rw [Feed.ofScript, hchars] at hfeed
  obtain ⟨pos', hlexes⟩ := (Lexes.of_ofChars hfeed).of_lineFeed
  exact parse_of_statements hlexes.ofChars_eq t.statements_ne_nil (statements_tokens_of_tree ht)

/-- Scripts can be put one after the other on lines of their own. If the first one has lexemes,
an iteration over both gives these, but not the end of the first one, and then what it gives of
the second one, as many lines further down as the first one has. Two programs so put together
are the program that has the statements of both. -/
theorem script_append (a b : String) :
    (∀ ls, (Feed.ofScript a).lexemes = .ok ls → ∃ front p, ls = front ++ [.atEnd p] ∧
      let f := Feed.ofScript (a ++ "\n" ++ b)
      let g := Feed.ofScript b
      Feed.untilStop f.ending f.items = front.map .ok
        ++ (Feed.untilStop g.ending g.items).map (LexItem.down (a.toList.count '\n' + 1))) ∧
    ∀ p q, Program.parse a = .ok p → Program.parse b = .ok q →
      Program.parse (a ++ "\n" ++ b) = .ok (p ++ q) := by
  refine ⟨?_, fun p q hp hq => parse_append hp hq⟩
  intro ls hls
  obtain ⟨front, p, rfl, hfeed⟩ := Feed.ofScript_of_lexemes hls
  refine ⟨front, p, rfl, ?_⟩
  rw [Feed.ofScript_append hfeed]
  have hdown := Feed.untilStop_down (a.toList.count '\n' + 1) (Feed.ofScript b).ending
    (Feed.ofScript b).items
  exact (Feed.untilStop_append _ front _).trans (congrArg (front.map .ok ++ ·) hdown)

/-- A comment at the end of the first script ends there, and takes nothing of the second one. -/
theorem script_append_comment :
    let a := "print; // 1"
    let b := "print;"
    let ls : List Lexeme :=
      [⟨.keyword .print, "print", ⟨1, 1⟩⟩, ⟨.semicolon, ";", ⟨1, 6⟩⟩, .atEnd ⟨1, 12⟩]
    (Feed.ofScript a).lexemes = .ok ls ∧ Program.parse a = .ok [.print] ∧
      Program.parse b = .ok [.print] ∧
      (∃ front p, ls = front ++ [.atEnd p] ∧
        let f := Feed.ofScript (a ++ "\n" ++ b)
        let g := Feed.ofScript b
        Feed.untilStop f.ending f.items = front.map .ok
          ++ (Feed.untilStop g.ending g.items).map (LexItem.down (a.toList.count '\n' + 1))) ∧
      Program.parse (a ++ "\n" ++ b) = .ok [.print, .print] := by
  intro a b ls
  have ha : Lexes "print; // 1".toList .start
      [⟨.keyword .print, "print", ⟨1, 1⟩⟩, ⟨.semicolon, ";", ⟨1, 6⟩⟩] ⟨1, 12⟩ :=
    .token rfl rfl (.token rfl rfl (.atEnd rfl))
  have hb : Lexes "print;".toList .start
      [⟨.keyword .print, "print", ⟨1, 1⟩⟩, ⟨.semicolon, ";", ⟨1, 6⟩⟩] ⟨1, 7⟩ :=
    .token rfl rfl (.token rfl rfl (.atEnd rfl))
  have hne : [StatementTree.print] ≠ [] := List.cons_ne_nil _ _
  -- The comment is trivia, and the end of the first script stands behind it.
  have hlexemes : (Feed.ofScript a).lexemes = .ok ls :=
    Feed.lexemes_eq_ok_iff.2
      ⟨_, _, congrArg Feed.items ha.ofChars_eq, congrArg Feed.ending ha.ofChars_eq, rfl⟩
  have hp : Program.parse a = .ok [.print] := parse_of_statements ha.ofChars_eq hne rfl
  have hq : Program.parse b = .ok [.print] := parse_of_statements hb.ofChars_eq hne rfl
  exact ⟨hlexemes, hp, hq, (script_append a b).1 ls hlexemes, (script_append a b).2 _ _ hp hq⟩

end Roster
