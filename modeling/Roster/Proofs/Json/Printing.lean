import Roster.Proofs.Json.Numerals

/-!
# `Roster.Proofs.Json.Printing`: what is written for a document denotes it

`Json.tree` is the tree of a document: its numbers become their numerals, and a number that is not
finite becomes `null`. In any layout that puts nothing but blanks between the parts, what is written
for a document denotes this tree and no other (`denotes_compact_iff`, `denotes_pretty_iff`).

The proof goes along the writer, which like the grammar treats what stands behind the first item or
field on its own (`value_chars`). A text comes back character by character (`Quoted.escape`): a
control character without a letter of its own is written as four hexadecimal digits, and all that is
not escaped may stand as it is.

Since control characters are escaped and numerals have none, a document without blanks is one line
(`lineFeed_notMem_compact`).
-/

set_option autoImplicit false

namespace Roster.Json

variable {cs s rest : List Char} {t : Tree} {j : Json}

/-! ### Texts -/

/-- A hexadecimal digit is read as what it is written for. -/
theorem hexValue?_hexDigit {n : Nat} (h : n < 16) : hexValue? (hexDigit n) = some n := by
  have hall : ∀ n : Fin 16, hexValue? (hexDigit n) = some n.val := by decide
  exact hall ⟨n, h⟩

/-- A character is escaped to what denotes it. The cases are those of the printer: seven short
escapes, other control characters as units, and all else as it is. -/
theorem Quoted.escape (c : Char) (h : Quoted cs s rest) :
    Quoted (escape c ++ cs) (c :: s) rest := by
  unfold Json.escape
  split_ifs with hquote hbackslash hb hf hn hr ht hcontrol
  · exact .short (by subst hquote; decide) h
  · exact .short (by subst hbackslash; decide) h
  · exact .short (by subst hb; decide) h
  · exact .short (by subst hf; decide) h
  · exact .short (by subst hn; decide) h
  · exact .short (by subst hr; decide) h
  · exact .short (by subst ht; decide) h
  · -- Any other control character is a unit of four digits, of which the first two are zeros.
    have hhex : readHex ('0' :: '0' :: hexDigit (c.toNat / 16) :: hexDigit (c.toNat % 16) :: cs)
        = some (c.toNat, cs) := by
      have hzero : hexValue? '0' = some 0 := by decide
      have hvalue : c.toNat / 16 * 16 + c.toNat % 16 = c.toNat := by omega
      simp [readHex, hzero, hexValue?_hexDigit (show c.toNat / 16 < 16 by omega),
        hexValue?_hexDigit (show c.toNat % 16 < 16 by omega), hvalue]
    have hunit := Quoted.unit hhex (by omega) h
    rwa [Char.ofNat_toNat] at hunit
  · exact .plain hquote hbackslash (by omega) h

/-- A text between quotes denotes itself. -/
theorem quoted_chars (s rest : List Char) : Quoted (s.flatMap escape ++ '"' :: rest) s rest := by
  induction s with
  | nil => exact .close
  | cons c s ih =>
    rw [List.flatMap_cons, List.append_assoc]
    exact ih.escape c

/-- A text in quotes and what stands behind it, character by character. -/
theorem quoted_append (s : String) (rest : List Char) :
    quoted s ++ rest = '"' :: (s.toList.flatMap escape ++ '"' :: rest) := by
  simp [quoted]

/-- A text in quotes denotes that text. -/
theorem value_quoted (s : String) (rest : List Char) :
    Value (quoted s ++ rest) (.string s) rest := by
  have hvalue := Value.string (quoted_chars s.toList rest)
  rwa [String.ofList_toList, ← quoted_append] at hvalue

/-! ### Layouts -/

/-- Whether a layout puts nothing but blanks between the parts. -/
structure Layout.IsBlank (layout : Layout) : Prop where
  lineStart : ∀ level, ∀ c ∈ layout.lineStart level, isSpace c = true
  gap : ∀ c ∈ layout.gap, isSpace c = true

/-- Documents on one line have nothing between their parts. -/
theorem Layout.isBlank_compact : compact.IsBlank :=
  ⟨fun _ _ hc => absurd hc List.not_mem_nil, fun _ hc => absurd hc List.not_mem_nil⟩

/-- Documents on many lines have only blanks between their parts. -/
theorem Layout.isBlank_pretty : pretty.IsBlank where
  lineStart level c hc := by
    rcases List.mem_cons.1 hc with rfl | hc
    · decide
    · rw [List.eq_of_mem_replicate hc]
      decide
  gap := List.all_eq_true.1 (by decide)

/-- Any characters that are blanks stand where blanks may. -/
theorem Blanks.of_forall (h : ∀ c ∈ cs, isSpace c = true) (rest : List Char) :
    Blanks (cs ++ rest) rest := by
  induction cs with
  | nil => exact .nil
  | cons c cs ih =>
    obtain ⟨hc, hcs⟩ := List.forall_mem_cons.1 h
    exact .cons hc (ih hcs)

/-! ### Documents -/

mutual

/-- The tree of a document. -/
def tree : Json → Tree
  | null => .null
  | bool value => .bool value
  | integer n => .number (String.ofList (integerNumeral n))
  | double x => if x.isFinite then .number (String.ofList (doubleNumeral x)) else .null
  | string s => .string s
  | array items => .array (itemTrees items)
  | object fields => .object (fieldTrees fields)

/-- The trees of items. -/
def itemTrees : List Json → List Tree
  | [] => []
  | item :: items => tree item :: itemTrees items

/-- The trees of fields, with their keys. -/
def fieldTrees : List (String × Json) → List (String × Tree)
  | [] => []
  | (key, value) :: fields => (key, tree value) :: fieldTrees fields

end

/-- The items of an array one by one. -/
theorem itemTrees_eq_map (items : List Json) : itemTrees items = items.map tree := by
  induction items with
  | nil => rfl
  | cons item items ih => rw [itemTrees, ih, List.map_cons]

/-- The fields of an object one by one. -/
theorem fieldTrees_eq_map (fields : List (String × Json)) :
    fieldTrees fields = fields.map fun field => (field.1, field.2.tree) := by
  induction fields with
  | nil => rfl
  | cons field fields ih => rw [fieldTrees, ih, List.map_cons]

/-- The word for nothing and what stands behind it, character by character. -/
theorem nullChars_append (rest : List Char) :
    "null".toList ++ rest = 'n' :: 'u' :: 'l' :: 'l' :: rest := by
  simp

/-- A key is followed by a colon, and perhaps by blanks. -/
theorem key_chars {gap : List Char} (hgap : ∀ c ∈ gap, isSpace c = true) (key : String)
    (rest : List Char) : Key (quoted key ++ ':' :: (gap ++ rest)) key rest := by
  have hkey := Key.intro (quoted_chars key.toList (':' :: (gap ++ rest))) .nil
    (Blanks.of_forall hgap rest)
  rwa [String.ofList_toList, ← quoted_append] at hkey

variable {layout : Layout}

mutual

/-- A document is written as a value that denotes its tree, whatever stands behind it. The induction
is on the document, with the items of arrays and the fields of objects at the same time. -/
theorem value_chars {layout : Layout} (hlayout : layout.IsBlank) (level : Nat) (j : Json)
    (rest : List Char) : Value (j.chars layout level ++ rest) j.tree rest := by
  match j with
  | null =>
    rw [chars, nullChars_append]
    exact .nullWord
  | bool true =>
    rw [chars, tree]
    simpa using Value.trueWord
  | bool false =>
    rw [chars, tree]
    simpa using Value.falseWord
  | integer n => exact .number (isNumeral_integerNumeral n) rfl
  | double x =>
    rw [chars, tree]
    -- A double that is no number is written as `null`, and so is its tree.
    by_cases hx : x.isFinite = true
    · rw [if_pos hx]
      exact .number (isNumeral_doubleNumeral hx) rfl
    · rw [if_neg hx, doubleNumeral, if_pos (by simpa using hx), nullChars_append]
      exact .nullWord
  | string s => exact value_quoted s rest
  | array [] => exact .emptyArray .nil
  | array (item :: items) =>
    have hitems := items_chars hlayout level items rest
    have hitem := value_chars hlayout (level + 1) item (itemChars layout level items ++ rest)
    have harray := Value.array (Blanks.of_forall (hlayout.lineStart (level + 1)) _) hitem hitems
    simpa [chars, tree, itemTrees] using harray
  | object [] => exact .emptyObject .nil
  | object ((key, value) :: fields) =>
    have hfields := fields_chars hlayout level fields rest
    have hvalue := value_chars hlayout (level + 1) value (fieldChars layout level fields ++ rest)
    have hobject := Value.object (Blanks.of_forall (hlayout.lineStart (level + 1)) _)
      (key_chars hlayout.gap key _) hvalue hfields
    simpa [chars, tree, fieldTrees] using hobject

/-- So are the items behind the first. -/
theorem items_chars {layout : Layout} (hlayout : layout.IsBlank) (level : Nat) (items : List Json)
    (rest : List Char) : Items (itemChars layout level items ++ rest) (itemTrees items) rest := by
  match items with
  | [] =>
    have hclose := Items.close (Blanks.of_forall (hlayout.lineStart level) (']' :: rest))
    simpa [itemChars, itemTrees] using hclose
  | item :: items =>
    have hitems := items_chars hlayout level items rest
    have hitem := value_chars hlayout (level + 1) item (itemChars layout level items ++ rest)
    have hnext := Items.next .nil (Blanks.of_forall (hlayout.lineStart (level + 1)) _) hitem hitems
    simpa [itemChars, itemTrees] using hnext

/-- So are the fields behind the first. -/
theorem fields_chars {layout : Layout} (hlayout : layout.IsBlank) (level : Nat)
    (fields : List (String × Json)) (rest : List Char) :
    Fields (fieldChars layout level fields ++ rest) (fieldTrees fields) rest := by
  match fields with
  | [] =>
    have hclose := Fields.close (Blanks.of_forall (hlayout.lineStart level) ('\x7d' :: rest))
    simpa [fieldChars, fieldTrees] using hclose
  | (key, value) :: fields =>
    have hfields := fields_chars hlayout level fields rest
    have hvalue := value_chars hlayout (level + 1) value (fieldChars layout level fields ++ rest)
    have hnext := Fields.next .nil (Blanks.of_forall (hlayout.lineStart (level + 1)) _)
      (key_chars hlayout.gap key _) hvalue hfields
    simpa [fieldChars, fieldTrees] using hnext

end

/-- What is written for a document denotes its tree and no other. -/
theorem denotes_chars_iff (hlayout : layout.IsBlank) :
    Denotes (String.ofList (j.chars layout 0)) t ↔ t = j.tree := by
  have hdenotes : Denotes (String.ofList (j.chars layout 0)) j.tree := by
    refine ⟨j.chars layout 0, [], ?_, ?_, .nil⟩
    · rw [String.toList_ofList]
      exact .nil
    · simpa using value_chars hlayout 0 j []
  constructor
  · exact fun h => h.unique hdenotes
  · rintro rfl
    exact hdenotes

/-- A document on one line denotes the tree of its value and no other. -/
theorem denotes_compact_iff : Denotes j.compact t ↔ t = j.tree :=
  denotes_chars_iff Layout.isBlank_compact

/-- A document on many lines denotes the same tree. -/
theorem denotes_pretty_iff : Denotes j.pretty t ↔ t = j.tree :=
  denotes_chars_iff Layout.isBlank_pretty

/-! ### Control characters -/

/-- Whether a text has no control characters. -/
def IsVisible (cs : List Char) : Prop := ∀ c ∈ cs, 0x20 ≤ c.toNat

/-- Whether a text has control characters can be looked up. -/
instance decidableIsVisible (cs : List Char) : Decidable (IsVisible cs) :=
  List.decidableBAll (fun c : Char => 0x20 ≤ c.toNat) cs

/-- Two texts without control characters have none together. -/
theorem IsVisible.append {more : List Char} (h : IsVisible cs) (hmore : IsVisible more) :
    IsVisible (cs ++ more) :=
  List.forall_mem_append.2 ⟨h, hmore⟩

/-- Control characters are escaped. -/
theorem isVisible_escape (c : Char) : IsVisible (escape c) := by
  have hhex : ∀ n : Fin 16, 0x20 ≤ (hexDigit n).toNat := by decide
  unfold escape
  split_ifs with hquote hbackslash hb hf hn hr ht hcontrol
  iterate 7 exact by decide
  · have hhigh := hhex ⟨c.toNat / 16, by omega⟩
    have hlow := hhex ⟨c.toNat % 16, by omega⟩
    have hmark : IsVisible ['\\', 'u', '0', '0'] := by decide
    have hdigits : IsVisible [hexDigit (c.toNat / 16), hexDigit (c.toNat % 16)] :=
      List.forall_mem_cons.2 ⟨hhigh, List.forall_mem_singleton.2 hlow⟩
    exact hmark.append hdigits
  · exact List.forall_mem_singleton.2 (by omega)

/-- A text in quotes has no control characters, since these are escaped. -/
theorem isVisible_quoted (s : String) : IsVisible (quoted s) := by
  have hbody : IsVisible (s.toList.flatMap escape) := by
    intro d hd
    obtain ⟨c, -, hc⟩ := List.mem_flatMap.1 hd
    exact isVisible_escape c d hc
  have hopen : IsVisible ['"'] := by decide
  exact (hopen.append hbody).append hopen

/-- Nor has a numeral. -/
theorem isVisible_of_isNumeral {x : Double} (h : IsNumeral cs x) : IsVisible cs := by
  intro c hc
  have hnumeral := h.forall_isNumeralChar c hc
  simp only [isNumeralChar, Bool.or_eq_true, beq_iff_eq] at hnumeral
  obtain ((((hdigit | rfl) | rfl) | rfl) | rfl) | rfl := hnumeral
  · have hzero : '0' ≤ c := by
      rw [Text.isAsciiDigit, Bool.and_eq_true] at hdigit
      exact of_decide_eq_true hdigit.1
    exact le_trans (by decide) (show '0'.toNat ≤ c.toNat from hzero)
  all_goals decide

/-- Nor has what is written for a number. -/
theorem isVisible_doubleNumeral (x : Double) : IsVisible (doubleNumeral x) := by
  cases hx : x.isFinite with
  | true => exact isVisible_of_isNumeral (isNumeral_doubleNumeral hx)
  | false =>
    have hnull : doubleNumeral x = "null".toList := by simp [doubleNumeral, hx]
    rw [hnull]
    decide

mutual

/-- A document without blanks has no control characters. -/
theorem isVisible_chars (level : Nat) (j : Json) : IsVisible (j.chars .compact level) := by
  match j with
  | null => rw [chars]; decide
  | bool true => rw [chars]; decide
  | bool false => rw [chars]; decide
  | integer n => exact isVisible_of_isNumeral (isNumeral_integerNumeral n)
  | double x => exact isVisible_doubleNumeral x
  | string s => exact isVisible_quoted s
  | array [] => rw [chars]; decide
  | array (item :: items) =>
    -- The brackets and commas are visible, and so are the parts between them.
    have hitem := isVisible_chars (level + 1) item
    have hitems := isVisible_itemChars level items
    have hopen : IsVisible ['['] := by decide
    rw [chars]
    exact (hopen.append hitem).append hitems
  | object [] => rw [chars]; decide
  | object ((key, value) :: fields) =>
    have hvalue := isVisible_chars (level + 1) value
    have hfields := isVisible_fieldChars level fields
    have hkey := isVisible_quoted key
    have hopen : IsVisible ['\x7b'] := by decide
    have hcolon : IsVisible [':'] := by decide
    rw [chars]
    exact (((hopen.append hkey).append hcolon).append hvalue).append hfields

/-- Neither have the items behind the first. -/
theorem isVisible_itemChars (level : Nat) (items : List Json) :
    IsVisible (itemChars .compact level items) := by
  match items with
  | [] =>
    show IsVisible [']']
    decide
  | item :: items =>
    have hitem := isVisible_chars (level + 1) item
    have hitems := isVisible_itemChars level items
    have hcomma : IsVisible [','] := by decide
    rw [itemChars]
    exact (hcomma.append hitem).append hitems

/-- Neither have the fields behind the first. -/
theorem isVisible_fieldChars (level : Nat) (fields : List (String × Json)) :
    IsVisible (fieldChars .compact level fields) := by
  match fields with
  | [] =>
    show IsVisible ['\x7d']
    decide
  | (key, value) :: fields =>
    have hvalue := isVisible_chars (level + 1) value
    have hfields := isVisible_fieldChars level fields
    have hkey := isVisible_quoted key
    have hcomma : IsVisible [','] := by decide
    have hcolon : IsVisible [':'] := by decide
    rw [fieldChars]
    exact (((hcomma.append hkey).append hcolon).append hvalue).append hfields

end
/-- A document without blanks is one line. -/
theorem lineFeed_notMem_compact (j : Json) : '\n' ∉ j.compact.toList := by
  intro h
  rw [compact, String.toList_ofList] at h
  exact absurd (isVisible_chars 0 j '\n' h) (by decide)

end Roster.Json
