import Mathlib.Data.List.TakeWhile
import Roster.Json.Reader

/-!
# `Roster.Proofs.Json.Grammar`: what a text of RFC 8259 denotes

The grammar of JSON as a relation between texts and trees, apart from any reader. A `Json.Tree` is
what a reader gets to know: the items of an array and the fields of an object in their order, keys
that come twice included, texts with their escapes resolved, and a number as its numeral, since it
is for the reader to say how it keeps numbers. `IsNumeral` gives the double nearest to a numeral.

Each relation takes a text apart from the front. `Value cs t rest` says that a value that denotes
`t` stands at the front of `cs` and that `rest` is what stands behind it, and `Denotes` that a whole
text is one value with blanks around it.

A text denotes one tree at most (`Denotes.unique`). The grammar says nowhere how far blanks and
digits go. That is settled by what has to stand behind them: no value, sign or bracket starts with a
blank (`Blanks.unique`), and nothing that can stand behind a value goes on with a numeral
(`Follows`).
-/

set_option autoImplicit false

namespace Roster.Json

open Text

/-- What a document denotes. -/
inductive Tree where
  | null
  | bool (value : Bool)
  | number (numeral : String)
  | string (value : String)
  | array (items : List Tree)
  | object (fields : List (String × Tree))

/-! ### Numerals -/

/-- Whether a text is digits, at least one. -/
def IsDigits (cs : List Char) : Prop := cs ≠ [] ∧ ∀ c ∈ cs, isAsciiDigit c = true

/-- A minus in front of a numeral, and whether it is there. -/
inductive IsSign : List Char → Bool → Prop
  | none : IsSign [] false
  | minus : IsSign ['-'] true

/-- The digits in front of the point: no zero stands in front of another digit. -/
inductive IsWhole : List Char → Prop
  | zero : IsWhole ['0']
  | digits {first : Char} {more : List Char} (hfirst : isAsciiDigit first = true)
    (hne : first ≠ '0') (hmore : ∀ c ∈ more, isAsciiDigit c = true) : IsWhole (first :: more)

/-- A point and the digits behind it. -/
inductive IsFraction : List Char → List Char → Prop
  | none : IsFraction [] []
  | point {digits : List Char} (h : IsDigits digits) : IsFraction ('.' :: digits) digits

/-- An exponent and its value. -/
inductive IsExponent : List Char → Int → Prop
  | none : IsExponent [] 0
  | bare {mark : Char} {digits : List Char} (hmark : mark = 'e' ∨ mark = 'E')
    (h : IsDigits digits) : IsExponent (mark :: digits) (Numeral.digitsValue digits)
  | plus {mark : Char} {digits : List Char} (hmark : mark = 'e' ∨ mark = 'E')
    (h : IsDigits digits) : IsExponent (mark :: '+' :: digits) (Numeral.digitsValue digits)
  | minus {mark : Char} {digits : List Char} (hmark : mark = 'e' ∨ mark = 'E')
    (h : IsDigits digits) : IsExponent (mark :: '-' :: digits) (-(Numeral.digitsValue digits : Int))

/-- A numeral, and the double nearest to the number it stands for. -/
inductive IsNumeral : List Char → Double → Prop
  | intro {sign whole point fraction mark : List Char} {negative : Bool} {e : Int}
    (hsign : IsSign sign negative) (hwhole : IsWhole whole) (hfraction : IsFraction point fraction)
    (hexponent : IsExponent mark e) :
    IsNumeral (sign ++ (whole ++ (point ++ mark))) (Numeral.ofDigits negative whole fraction e)

/-! ### Texts -/

/-- The characters that are written as a backslash and one more character, each behind that one. -/
def shortEscapes : List (Char × Char) :=
  [('"', '"'), ('\\', '\\'), ('/', '/'), ('b', '\x08'), ('f', '\x0c'), ('n', '\n'), ('r', '\r'),
    ('t', '\t')]

/-- The rest of a text between quotes, its closing quote included, and the characters it denotes.
A character is written as itself or escaped; one that does not fit four hexadecimal digits is a
pair of surrogates. -/
inductive Quoted : List Char → List Char → List Char → Prop
  | close {rest : List Char} : Quoted ('"' :: rest) [] rest
  | plain {c : Char} {cs s rest : List Char} (hquote : c ≠ '"') (hbackslash : c ≠ '\\')
    (hcontrol : 0x20 ≤ c.toNat) (h : Quoted cs s rest) : Quoted (c :: cs) (c :: s) rest
  | short {mark c : Char} {cs s rest : List Char} (hmark : shortEscapes.lookup mark = some c)
    (h : Quoted cs s rest) : Quoted ('\\' :: mark :: cs) (c :: s) rest
  | unit {cs more s rest : List Char} {n : Nat} (hhex : readHex cs = some (n, more))
    (hunit : n < 0xd800 ∨ 0xe000 ≤ n) (h : Quoted more s rest) :
    Quoted ('\\' :: 'u' :: cs) (Char.ofNat n :: s) rest
  | pair {cs more last s rest : List Char} {high low : Nat} {c : Char}
    (hhigh : readHex cs = some (high, '\\' :: 'u' :: more)) (hrange : 0xd800 ≤ high ∧ high < 0xdc00)
    (hlow : readHex more = some (low, last)) (hpair : pairChar? high low = some c)
    (h : Quoted last s rest) : Quoted ('\\' :: 'u' :: cs) (c :: s) rest

/-! ### Values -/

/-- Any number of blanks. -/
inductive Blanks : List Char → List Char → Prop
  | nil {cs : List Char} : Blanks cs cs
  | cons {c : Char} {cs rest : List Char} (hc : isSpace c = true) (h : Blanks cs rest) :
    Blanks (c :: cs) rest

/-- The key of a field, and the colon behind it. -/
inductive Key : List Char → String → List Char → Prop
  | intro {cs s back front rest : List Char} (hkey : Quoted cs s back)
    (hback : Blanks back (':' :: front)) (hfront : Blanks front rest) :
    Key ('"' :: cs) (String.ofList s) rest

mutual

/-- A value. -/
inductive Value : List Char → Tree → List Char → Prop
  | nullWord {rest : List Char} : Value ('n' :: 'u' :: 'l' :: 'l' :: rest) .null rest
  | trueWord {rest : List Char} : Value ('t' :: 'r' :: 'u' :: 'e' :: rest) (.bool true) rest
  | falseWord {rest : List Char} :
    Value ('f' :: 'a' :: 'l' :: 's' :: 'e' :: rest) (.bool false) rest
  | number {cs text rest : List Char} {x : Double} (h : IsNumeral text x)
      (hcs : cs = text ++ rest) :
    Value cs (.number (String.ofList text)) rest
  | string {cs s rest : List Char} (h : Quoted cs s rest) :
    Value ('"' :: cs) (.string (String.ofList s)) rest
  | emptyArray {cs rest : List Char} (h : Blanks cs (']' :: rest)) :
    Value ('[' :: cs) (.array []) rest
  | array {cs front more rest : List Char} {item : Tree} {items : List Tree}
    (hfront : Blanks cs front) (hitem : Value front item more) (hitems : Items more items rest) :
    Value ('[' :: cs) (.array (item :: items)) rest
  | emptyObject {cs rest : List Char} (h : Blanks cs ('\x7d' :: rest)) :
    Value ('\x7b' :: cs) (.object []) rest
  | object {cs front value more rest : List Char} {key : String} {t : Tree}
    {fields : List (String × Tree)} (hfront : Blanks cs front) (hkey : Key front key value)
    (hvalue : Value value t more) (hfields : Fields more fields rest) :
    Value ('\x7b' :: cs) (.object ((key, t) :: fields)) rest

/-- The items of an array behind the first, and the end of the array. -/
inductive Items : List Char → List Tree → List Char → Prop
  | close {cs rest : List Char} (h : Blanks cs (']' :: rest)) : Items cs [] rest
  | next {cs comma front more rest : List Char} {item : Tree} {items : List Tree}
    (hback : Blanks cs (',' :: comma)) (hfront : Blanks comma front) (hitem : Value front item more)
    (hitems : Items more items rest) : Items cs (item :: items) rest

/-- The fields of an object behind the first, and the end of the object. -/
inductive Fields : List Char → List (String × Tree) → List Char → Prop
  | close {cs rest : List Char} (h : Blanks cs ('\x7d' :: rest)) : Fields cs [] rest
  | next {cs comma front value more rest : List Char} {key : String} {t : Tree}
    {fields : List (String × Tree)} (hback : Blanks cs (',' :: comma)) (hfront : Blanks comma front)
    (hkey : Key front key value) (hvalue : Value value t more) (hfields : Fields more fields rest) :
    Fields cs ((key, t) :: fields) rest

end

/-- Whether a text as a whole denotes a tree. -/
def Denotes (text : String) (t : Tree) : Prop :=
  ∃ front back, Blanks text.toList front ∧ Value front t back ∧ Blanks back []

/-! ### Numerals can be told from what follows -/

/-- Whether a text does not go on with a numeral that stands in front of it. -/
def Follows (rest : List Char) : Prop := ∀ c ∈ rest.head?, isNumeralChar c = false

variable {cs cs' text text' rest rest' s s' : List Char} {x x' : Double} {key key' : String}
  {t t' : Tree} {items : List Tree} {fields : List (String × Tree)}

/-- Digits may stand in a numeral. -/
theorem isNumeralChar_of_isAsciiDigit {c : Char} (h : isAsciiDigit c = true) :
    isNumeralChar c = true := by
  simp [isNumeralChar, h]

/-- What stands in front of the point is digits. -/
theorem IsWhole.isDigits (h : IsWhole cs) : IsDigits cs := by
  cases h with
  | zero => exact ⟨List.cons_ne_nil _ _, List.all_eq_true.1 (by decide)⟩
  | digits hfirst _ hmore =>
    exact ⟨List.cons_ne_nil _ _, List.forall_mem_cons.2 ⟨hfirst, hmore⟩⟩

namespace IsNumeral

/-- It is made of characters that can only be part of a numeral. -/
theorem forall_isNumeralChar (h : IsNumeral text x) : ∀ c ∈ text, isNumeralChar c = true := by
  have hdigits : ∀ {ds : List Char}, (∀ c ∈ ds, isAsciiDigit c = true) →
      ∀ c ∈ ds, isNumeralChar c = true :=
    fun hds c hc => isNumeralChar_of_isAsciiDigit (hds c hc)
  have hmarks : ∀ {mark : Char}, mark = 'e' ∨ mark = 'E' → isNumeralChar mark = true := by
    rintro mark (rfl | rfl) <;> decide
  cases h with
  | intro hsign hwhole hfraction hexponent =>
    refine List.forall_mem_append.2 ⟨?_, List.forall_mem_append.2 ⟨hdigits hwhole.isDigits.2,
      List.forall_mem_append.2 ⟨?_, ?_⟩⟩⟩
    · cases hsign <;> exact List.all_eq_true.1 (by decide)
    · cases hfraction with
      | none => simp
      | point h => exact List.forall_mem_cons.2 ⟨by decide, hdigits h.2⟩
    · cases hexponent with
      | none => simp
      | bare hmark h => exact List.forall_mem_cons.2 ⟨hmarks hmark, hdigits h.2⟩
      | plus hmark h | minus hmark h =>
        exact List.forall_mem_cons.2 ⟨hmarks hmark, List.forall_mem_cons.2 ⟨by decide, hdigits h.2⟩⟩

/-- No numeral is empty. -/
theorem ne_nil (h : IsNumeral text x) : text ≠ [] := by
  cases h with
  | intro _ hwhole _ _ => simp [hwhole.isDigits.1]

/-- It starts with one of these characters. -/
theorem isNumeralChar_head {c : Char} (h : IsNumeral text x) (hcs : c :: cs = text ++ rest) :
    isNumeralChar c = true := by
  obtain ⟨first, more, rfl⟩ := List.exists_cons_of_ne_nil h.ne_nil
  obtain ⟨rfl, -⟩ := List.cons.inj hcs
  exact h.forall_isNumeralChar _ List.mem_cons_self

/-- A numeral that is not followed by more of it is as long as can be. -/
theorem takeWhile_eq (h : IsNumeral text x) (hrest : Follows rest) :
    (text ++ rest).takeWhile isNumeralChar = text := by
  rw [List.takeWhile_append_of_pos h.forall_isNumeralChar]
  cases rest with
  | nil => simp
  | cons c rest => simp [hrest c rfl]

/-- Where one numeral ends and no more of it follows, no other one ends elsewhere. -/
theorem unique (h : IsNumeral text x) (h' : IsNumeral text' x') (hrest : Follows rest)
    (hrest' : Follows rest') (heq : text ++ rest = text' ++ rest') :
    text = text' ∧ rest = rest' := by
  have htext : text = text' := by
    rw [← h.takeWhile_eq hrest, heq, h'.takeWhile_eq hrest']
  subst htext
  exact ⟨rfl, List.append_cancel_left heq⟩

end IsNumeral

/-! ### Texts and keys can be told from what follows -/

/-- A text in quotes has one value and ends in one place. The induction is on the characters of the
first reading, and each case leaves one case for the second. -/
theorem Quoted.unique (h : Quoted cs s rest) (h' : Quoted cs s' rest') :
    s = s' ∧ rest = rest' := by
  -- The mark of a unit is not the mark of a short escape.
  have hnoUnit : shortEscapes.lookup 'u' = none := by decide
  induction h generalizing s' rest' with
  | close =>
    cases h' with
    | close => exact ⟨rfl, rfl⟩
    | plain hquote => exact absurd rfl hquote
  | plain hquote hbackslash _ _ ih =>
    cases h' with
    | close => exact absurd rfl hquote
    | plain _ _ _ h' =>
      obtain ⟨rfl, rfl⟩ := ih h'
      exact ⟨rfl, rfl⟩
    | short | unit | pair => exact absurd rfl hbackslash
  | short hmark _ ih =>
    cases h' with
    | plain _ hbackslash => exact absurd rfl hbackslash
    | short hmark' h' =>
      obtain ⟨rfl, rfl⟩ := ih h'
      obtain rfl := Option.some.inj (hmark.symm.trans hmark')
      exact ⟨rfl, rfl⟩
    | unit | pair => cases hmark.symm.trans hnoUnit
  | unit hhex hunit _ ih =>
    cases h' with
    | plain _ hbackslash => exact absurd rfl hbackslash
    | short hmark => cases hmark.symm.trans hnoUnit
    | unit hhex' _ h' =>
      obtain ⟨rfl, rfl⟩ : _ ∧ _ := by simpa using hhex.symm.trans hhex'
      obtain ⟨rfl, rfl⟩ := ih h'
      exact ⟨rfl, rfl⟩
    | pair hhigh hrange =>
      -- A unit of its own is no half of a pair.
      obtain ⟨rfl, -⟩ : _ ∧ _ := by simpa using hhex.symm.trans hhigh
      omega
  | pair hhigh hrange hlow hpair _ ih =>
    cases h' with
    | plain _ hbackslash => exact absurd rfl hbackslash
    | short hmark => cases hmark.symm.trans hnoUnit
    | unit hhex hunit =>
      obtain ⟨rfl, -⟩ : _ ∧ _ := by simpa using hhigh.symm.trans hhex
      omega
    | pair hhigh' _ hlow' hpair' h' =>
      obtain ⟨rfl, rfl⟩ : _ ∧ _ := by simpa using hhigh.symm.trans hhigh'
      obtain ⟨rfl, rfl⟩ : _ ∧ _ := by simpa using hlow.symm.trans hlow'
      obtain rfl := Option.some.inj (hpair.symm.trans hpair')
      obtain ⟨rfl, rfl⟩ := ih h'
      exact ⟨rfl, rfl⟩

/-- Whether a text starts with a character that is no blank. -/
def Solid (cs : List Char) : Prop := ∃ c more, cs = c :: more ∧ isSpace c = false

/-- A character that is no blank may stand behind blanks. -/
theorem solid_cons {c : Char} (h : isSpace c = false) (cs : List Char) : Solid (c :: cs) :=
  ⟨c, cs, rfl, h⟩

/-- Blanks go as far as something else has to stand behind them. -/
theorem Blanks.unique (h : Blanks cs rest) (h' : Blanks cs rest') (hrest : Solid rest)
    (hrest' : Solid rest') : rest = rest' := by
  induction h with
  | nil =>
    cases h' with
    | nil => rfl
    | cons hc _ =>
      obtain ⟨c, more, heq, hsolid⟩ := hrest
      cases heq
      cases hc.symm.trans hsolid
  | cons hc _ ih =>
    cases h' with
    | nil =>
      obtain ⟨c, more, heq, hsolid⟩ := hrest'
      cases heq
      cases hc.symm.trans hsolid
    | cons _ h' => exact ih h' hrest

/-- No numeral has a blank in it. -/
theorem isNumeralChar_of_isSpace {c : Char} (h : isSpace c = true) : isNumeralChar c = false := by
  have hblanks : c = ' ' ∨ c = '\n' ∨ c = '\r' ∨ c = '\t' := by
    simpa [isSpace, or_assoc] using h
  rcases hblanks with rfl | rfl | rfl | rfl <;> decide

/-- What stands behind blanks that are followed by a sign or nothing goes on with no numeral. -/
theorem Blanks.follows (h : Blanks cs rest) (hrest : Follows rest) : Follows cs := by
  cases h with
  | nil => exact hrest
  | cons hc _ =>
    intro c hmem
    cases hmem
    exact isNumeralChar_of_isSpace hc

/-- A character that is no part of numerals may stand behind one. -/
theorem follows_cons {c : Char} (h : isNumeralChar c = false) (cs : List Char) :
    Follows (c :: cs) := by
  intro c' hc'
  cases hc'
  exact h

/-- A key starts with its quote. -/
theorem Key.solid (h : Key cs key rest) : Solid cs := by
  cases h
  exact solid_cons (by decide) _

/-- A key has one name and one end, if something else than a blank stands behind it. -/
theorem Key.unique (h : Key cs key rest) (h' : Key cs key' rest') (hrest : Solid rest)
    (hrest' : Solid rest') : key = key' ∧ rest = rest' := by
  cases h with
  | intro hkey hback hfront =>
    cases h' with
    | intro hkey' hback' hfront' =>
      obtain ⟨rfl, rfl⟩ := hkey.unique hkey'
      have hcolon := hback.unique hback' (solid_cons (by decide) _) (solid_cons (by decide) _)
      cases hcolon
      exact ⟨rfl, hfront.unique hfront' hrest hrest'⟩

/-! ### A text denotes one tree -/

/-- A value starts with no blank. -/
theorem Value.solid (h : Value cs t rest) : Solid cs := by
  cases h with
  | number h hcs =>
    obtain ⟨c, more, htext⟩ := List.exists_cons_of_ne_nil h.ne_nil
    have hc : isNumeralChar c = true := h.forall_isNumeralChar c (htext ▸ List.mem_cons_self)
    refine ⟨c, more ++ rest, by rw [hcs, htext, List.cons_append], ?_⟩
    cases hspace : isSpace c with
    | false => rfl
    | true => cases hc.symm.trans (isNumeralChar_of_isSpace hspace)
  | _ => exact solid_cons (by decide) _

/-- What goes on with items, or closes them, does not go on with a numeral. -/
theorem Items.follows (h : Items cs items rest) : Follows cs := by
  cases h with
  | close h => exact h.follows (follows_cons (by decide) _)
  | next hback => exact hback.follows (follows_cons (by decide) _)

/-- What goes on with fields, or closes them, does not go on with a numeral. -/
theorem Fields.follows (h : Fields cs fields rest) : Follows cs := by
  cases h with
  | close h => exact h.follows (follows_cons (by decide) _)
  | next hback => exact hback.follows (follows_cons (by decide) _)

/-- What starts with no character of a numeral is no number. -/
theorem IsNumeral.absurd {c : Char} {p : Prop} (h : IsNumeral text x) (hcs : c :: cs = text ++ rest)
    (hc : isNumeralChar c = false) : p := by
  cases hc.symm.trans (h.isNumeralChar_head hcs)

mutual

/-- A value at the front of a text denotes one tree and ends in one place. The first character
decides the form, and in each form the parts are told from what follows them. What stands behind
must not go on with a numeral, which is the only value that has no end of its own. -/
theorem Value.unique {cs rest rest' : List Char} {t t' : Tree} (h : Value cs t rest)
    (h' : Value cs t' rest') (hrest : Follows rest) (hrest' : Follows rest') :
    t = t' ∧ rest = rest' := by
  cases h with
  | nullWord =>
    cases h' with
    | nullWord => exact ⟨rfl, rfl⟩
    -- The first character tells the forms apart, and no numeral starts as a word does.
    | number h' hcs => exact h'.absurd hcs (by decide)
  | trueWord =>
    cases h' with
    | trueWord => exact ⟨rfl, rfl⟩
    | number h' hcs => exact h'.absurd hcs (by decide)
  | falseWord =>
    cases h' with
    | falseWord => exact ⟨rfl, rfl⟩
    | number h' hcs => exact h'.absurd hcs (by decide)
  | number h hcs =>
    cases h' with
    | number h' hcs' =>
      obtain ⟨rfl, rfl⟩ := h.unique h' hrest hrest' (hcs.symm.trans hcs')
      exact ⟨rfl, rfl⟩
    | _ => exact h.absurd hcs (by decide)
  | string h =>
    cases h' with
    | string h' =>
      obtain ⟨rfl, rfl⟩ := h.unique h'
      exact ⟨rfl, rfl⟩
    | number h' hcs => exact h'.absurd hcs (by decide)
  | emptyArray h =>
    cases h' with
    | emptyArray h' =>
      cases h.unique h' (solid_cons (by decide) _) (solid_cons (by decide) _)
      exact ⟨rfl, rfl⟩
    | array hfront' hitem' =>
      -- An array with an item would have to start its item with the closing bracket.
      cases h.unique hfront' (solid_cons (by decide) _) hitem'.solid
      cases hitem' with
      | number h' hcs => exact h'.absurd hcs (by decide)
    | number h' hcs => exact h'.absurd hcs (by decide)
  | array hfront hitem hitems =>
    cases h' with
    | emptyArray h' =>
      cases hfront.unique h' hitem.solid (solid_cons (by decide) _)
      cases hitem with
      | number h hcs => exact h.absurd hcs (by decide)
    | array hfront' hitem' hitems' =>
      obtain rfl := hfront.unique hfront' hitem.solid hitem'.solid
      obtain ⟨rfl, rfl⟩ := hitem.unique hitem' hitems.follows hitems'.follows
      obtain ⟨rfl, rfl⟩ := hitems.unique hitems'
      exact ⟨rfl, rfl⟩
    | number h' hcs => exact h'.absurd hcs (by decide)
  | emptyObject h =>
    cases h' with
    | emptyObject h' =>
      cases h.unique h' (solid_cons (by decide) _) (solid_cons (by decide) _)
      exact ⟨rfl, rfl⟩
    | object hfront' hkey' =>
      -- Nor does a key start with the closing brace.
      cases h.unique hfront' (solid_cons (by decide) _) hkey'.solid
      cases hkey'
    | number h' hcs => exact h'.absurd hcs (by decide)
  | object hfront hkey hvalue hfields =>
    cases h' with
    | emptyObject h' =>
      cases hfront.unique h' hkey.solid (solid_cons (by decide) _)
      cases hkey
    | object hfront' hkey' hvalue' hfields' =>
      obtain rfl := hfront.unique hfront' hkey.solid hkey'.solid
      obtain ⟨rfl, rfl⟩ := hkey.unique hkey' hvalue.solid hvalue'.solid
      obtain ⟨rfl, rfl⟩ := hvalue.unique hvalue' hfields.follows hfields'.follows
      obtain ⟨rfl, rfl⟩ := hfields.unique hfields'
      exact ⟨rfl, rfl⟩
    | number h' hcs => exact h'.absurd hcs (by decide)

/-- The same for the items of an array, of which each is told from what follows. -/
theorem Items.unique {cs rest rest' : List Char} {items items' : List Tree}
    (h : Items cs items rest) (h' : Items cs items' rest') : items = items' ∧ rest = rest' := by
  cases h with
  | close h =>
    cases h' with
    | close h' =>
      cases h.unique h' (solid_cons (by decide) _) (solid_cons (by decide) _)
      exact ⟨rfl, rfl⟩
    | next hback' => cases h.unique hback' (solid_cons (by decide) _) (solid_cons (by decide) _)
  | next hback hfront hitem hitems =>
    cases h' with
    | close h' => cases hback.unique h' (solid_cons (by decide) _) (solid_cons (by decide) _)
    | next hback' hfront' hitem' hitems' =>
      cases hback.unique hback' (solid_cons (by decide) _) (solid_cons (by decide) _)
      -- The blanks end at the item, the item at what follows it, and the other items likewise.
      obtain rfl := hfront.unique hfront' hitem.solid hitem'.solid
      obtain ⟨rfl, rfl⟩ := hitem.unique hitem' hitems.follows hitems'.follows
      obtain ⟨rfl, rfl⟩ := hitems.unique hitems'
      exact ⟨rfl, rfl⟩

/-- The same for the fields of an object. -/
theorem Fields.unique {cs rest rest' : List Char} {fields fields' : List (String × Tree)}
    (h : Fields cs fields rest) (h' : Fields cs fields' rest') :
    fields = fields' ∧ rest = rest' := by
  cases h with
  | close h =>
    cases h' with
    | close h' =>
      cases h.unique h' (solid_cons (by decide) _) (solid_cons (by decide) _)
      exact ⟨rfl, rfl⟩
    | next hback' => cases h.unique hback' (solid_cons (by decide) _) (solid_cons (by decide) _)
  | next hback hfront hkey hvalue hfields =>
    cases h' with
    | close h' => cases hback.unique h' (solid_cons (by decide) _) (solid_cons (by decide) _)
    | next hback' hfront' hkey' hvalue' hfields' =>
      cases hback.unique hback' (solid_cons (by decide) _) (solid_cons (by decide) _)
      obtain rfl := hfront.unique hfront' hkey.solid hkey'.solid
      obtain ⟨rfl, rfl⟩ := hkey.unique hkey' hvalue.solid hvalue'.solid
      obtain ⟨rfl, rfl⟩ := hvalue.unique hvalue' hfields.follows hfields'.follows
      obtain ⟨rfl, rfl⟩ := hfields.unique hfields'
      exact ⟨rfl, rfl⟩

end

/-- A text denotes one tree at most. -/
theorem Denotes.unique {text : String} (h : Denotes text t) (h' : Denotes text t') : t = t' := by
  obtain ⟨front, back, hfront, hvalue, hback⟩ := h
  obtain ⟨front', back', hfront', hvalue', hback'⟩ := h'
  have hend : Follows [] := by simp [Follows]
  obtain rfl := hfront.unique hfront' hvalue.solid hvalue'.solid
  exact (hvalue.unique hvalue' (hback.follows hend) (hback'.follows hend)).1

end Roster.Json
