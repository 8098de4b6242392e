import Mathlib
import Ipld.Json.Read
import Ipld.Json.Write

/-!
# Reading written JSON text

The reader steps that decoding rests on, each run on text that the pretty writer produced.
A step is described by `Takes r cs ahead a`: on any text that starts with `cs ++ ahead`, the
reader `r` reads `cs`, stops in front of `ahead` (what it only looked at) and returns `a`.
Steps compose by `Takes.bind`.

The main facts are that a written string literal reads back as its string, through every
escape the writer uses (`takes_readString`, from one step per written character,
`readStringBody_escapeChar`), and how the steps before a key or an item of a container
read the separators and blanks the writer puts there. The last section lays out the pretty
text of a container as the chunks these steps read.
-/

namespace Ipld.Json

/-- The blank characters of JSON text. -/
def blankChar (ch : Char) : Bool := ch == ' ' || ch == '\n' || ch == '\t' || ch == '\r'

/-- Text made of blanks only. -/
def Blank (ws : List Char) : Prop := ∀ c ∈ ws, blankChar c = true

theorem blank_nil : Blank [] := fun _ h => nomatch h

/-- On any text that starts with `cs ++ ahead`, `r` reads `cs`, stops in front of `ahead`
and returns `a`. -/
structure Takes {α : Type} (r : Reader α) (cs ahead : List Char) (a : α) : Prop where
  /-- The run on any text that starts so. -/
  run : ∀ rest pos, ∃ pos', r.run ⟨cs ++ ahead ++ rest, pos⟩ = .ok (a, ⟨ahead ++ rest, pos'⟩)

section Takes

variable {α β : Type} {r : Reader α} {f : α → Reader β} {cs cs' ahead ahead' : List Char}
  {a : α} {b : β}

theorem Reader.run_bind_ok {c c' : Cursor} (h : r.run c = .ok (a, c')) :
    (r >>= f).run c = (f a).run c' := by
  rw [StateT.run_bind, h]
  rfl

theorem Reader.run_get_bind {f : Cursor → Reader β} (c : Cursor) :
    ((get : Reader Cursor) >>= f).run c = (f c).run c := rfl

/-- Two steps in a row: the second starts where the first stopped, in front of what the
first only looked at. -/
theorem Takes.bind (hr : Takes r cs ahead a) (hf : Takes (f a) cs' ahead' b)
    (hpre : ahead <+: cs' ++ ahead') : Takes (r >>= f) (cs ++ cs') ahead' b := by
  constructor
  intro rest pos
  obtain ⟨t, ht⟩ := hpre
  obtain ⟨p₁, h₁⟩ := hr.run (t ++ rest) pos
  obtain ⟨p₂, h₂⟩ := hf.run rest p₁
  refine ⟨p₂, ?_⟩
  have htext : cs ++ cs' ++ ahead' ++ rest = cs ++ ahead ++ (t ++ rest) := by
    simp only [List.append_assoc, ← ht]
  have hleft : ahead ++ (t ++ rest) = cs' ++ ahead' ++ rest := by
    simp only [← List.append_assoc, ht]
  rw [htext, Reader.run_bind_ok h₁, hleft, h₂]

theorem Takes.pure (a : α) (ahead : List Char) : Takes (Pure.pure a : Reader α) [] ahead a :=
  ⟨fun _ pos => ⟨pos, rfl⟩⟩

theorem Takes.of_eq (h : Takes r cs ahead a) (hcs : cs = cs') : Takes r cs' ahead a := by
  subst hcs
  exact h

theorem Takes.map {g : α → β} (hr : Takes r cs ahead a) : Takes (g <$> r) cs ahead (g a) := by
  constructor
  intro rest pos
  obtain ⟨p, h⟩ := hr.run rest pos
  refine ⟨p, ?_⟩
  rw [StateT.run_map, h]
  rfl

end Takes

theorem takes_eat (ch : Char) : Takes eat [ch] [] () := ⟨fun _ _ => ⟨_, rfl⟩⟩

theorem takes_peek (ch : Char) : Takes peek? [] [ch] (some ch) := ⟨fun _ pos => ⟨pos, rfl⟩⟩

theorem takes_next (ch : Char) : Takes next? [ch] [] (some ch) := ⟨fun _ _ => ⟨_, rfl⟩⟩

theorem takes_skipBlanks {ws : List Char} {c : Char} (hws : Blank ws) (hc : blankChar c = false) :
    Takes skipBlanks ws [c] (some c) := by
  constructor
  intro rest pos
  have hdrop : (ws ++ c :: rest).dropWhile
      (fun ch => ch == ' ' || ch == '\n' || ch == '\t' || ch == '\r') = c :: rest := by
    show (ws ++ c :: rest).dropWhile blankChar = c :: rest
    rw [List.dropWhile_append_of_pos hws]
    simp [hc]
  simp only [List.append_assoc, List.singleton_append]
  simp [skipBlanks, hdrop]
  exact ⟨_, rfl⟩

theorem takes_expectWord (w : List Char) : Takes (expectWord w) w [] () := by
  induction w with
  | nil => exact Takes.pure () []
  | cons c more ih =>
    rw [expectWord]
    refine Takes.bind (takes_peek c) ?_ (by simp)
    simp only [beq_self_eq_true, if_true]
    exact Takes.bind (takes_eat c) ih (by simp)


/-- How the writer escapes a character: as itself (a printable character other than a quote or
a backslash), as a backslash and one letter, or as a `\u00xx` escape (a control character). -/
theorem escapeChar_cases (c : Char) :
    (escapeChar c = [c] ∧ c ≠ '"' ∧ c ≠ '\\' ∧ 0x20 ≤ c.toNat) ∨
    (∃ e, escapeChar c = ['\\', e] ∧ e ≠ 'u' ∧ simpleEscape? e = some c) ∨
    (c.toNat < 0x20 ∧ escapeChar c = ['\\', 'u', '0', '0'] ++ hexByte c.toNat) := by
  unfold escapeChar
  split
  · exact .inr (.inl ⟨'"', rfl, by decide, rfl⟩)
  · exact .inr (.inl ⟨'\\', rfl, by decide, rfl⟩)
  · exact .inr (.inl ⟨'n', rfl, by decide, rfl⟩)
  · exact .inr (.inl ⟨'r', rfl, by decide, rfl⟩)
  · exact .inr (.inl ⟨'t', rfl, by decide, rfl⟩)
  · exact .inr (.inl ⟨'b', rfl, by decide, rfl⟩)
  · exact .inr (.inl ⟨'f', rfl, by decide, rfl⟩)
  · rename_i hq hb _ _ _ _ _
    by_cases hc : c.toNat < 0x20
    · exact .inr (.inr ⟨hc, by simp [hc]⟩)
    · exact .inl ⟨by simp [hc], hq, hb, by omega⟩

/-- The two hex digits of a control character, after `00`, read back as its code, and they
are one byte each. -/
theorem hexByte_control : ∀ n < 0x20,
    hex4 (['0', '0'] ++ hexByte n) = some n ∧ (hexByte n).all (·.utf8Size == 1) = true := by
  intro n hn
  interval_cases n <;> exact ⟨rfl, rfl⟩

/-- Skipping as many bytes as a run of one-byte characters holds skips the run. -/
theorem skipBytes_ascii (pos : Pos) (cs : List Char) (hcs : ∀ c ∈ cs, c.utf8Size = 1)
    (rest : List Char) : ∃ pos', skipBytes pos (cs ++ rest) cs.length = ⟨rest, pos'⟩ := by
  induction cs generalizing pos with
  | nil =>
    cases rest with
    | nil => exact ⟨pos, rfl⟩
    | cons c more => exact ⟨pos, rfl⟩
  | cons c more ih =>
    have hc : c.utf8Size = 1 := hcs c (by simp)
    obtain ⟨p, hp⟩ := ih (pos.after c) fun d hd => hcs d (by simp [hd])
    refine ⟨p, ?_⟩
    simp only [List.cons_append, List.length_cons, skipBytes, hc, Nat.add_sub_cancel]
    simpa using hp

theorem takes_readHex4 {n : Nat} (hn : n < 0x20) :
    Takes readHex4 (['0', '0'] ++ hexByte n) [] n := by
  constructor
  intro rest pos
  obtain ⟨hhex, hsize⟩ := hexByte_control n hn
  obtain ⟨a, b, hab⟩ : ∃ a b, hexByte n = [a, b] := ⟨_, _, rfl⟩
  rw [hab] at hhex hsize
  simp only [List.all_cons, List.all_nil, Bool.and_true, Bool.and_eq_true, beq_iff_eq] at hsize
  obtain ⟨p, hp⟩ := skipBytes_ascii pos ['0', '0', a, b]
    (by simp [hsize.1, hsize.2]; rfl) rest
  refine ⟨p, ?_⟩
  have hzero : ('0' : Char).utf8Size = 1 := rfl
  simp only [List.cons_append, List.nil_append, List.length_cons, List.length_nil] at hp hhex
  simp only [hab, List.cons_append, List.nil_append, List.append_nil]
  simp [readHex4, hzero, hsize.1, hsize.2, hp, hhex]
  rfl

theorem takes_readEscape_simple {e c : Char} (hu : e ≠ 'u') (h : simpleEscape? e = some c) :
    Takes readEscape [e] [] c := by
  rw [readEscape]
  refine Takes.bind (takes_peek e) ?_ (by simp)
  split
  · contradiction
  · rename_i heq
    cases heq
    contradiction
  · rename_i d _ heq
    obtain rfl : e = d := Option.some.inj heq
    simp only [h]
    exact Takes.bind (takes_eat e) (Takes.pure c []) (by simp)

theorem takes_readEscape_unicode {n : Nat} (hn : n < 0x20) :
    Takes readEscape ('u' :: (['0', '0'] ++ hexByte n)) [] (Char.ofNat n) := by
  rw [readEscape]
  refine Takes.bind (takes_peek 'u') ?_ (by simp)
  refine Takes.bind (takes_eat 'u') ?_ (by simp)
  rw [readUnicodeEscape]
  refine Takes.bind (takes_readHex4 hn) ?_ (by simp)
  have hlow : ¬ (0xDC00 ≤ n && n ≤ 0xDFFF) = true := by simp; omega
  have hbmp : (n < 0xD800 || n > 0xDBFF) = true := by simp; omega
  simp only [hlow, hbmp, if_true]
  exact Takes.pure _ []

/-- Reading one written character of a string body: it stands for the character the writer
escaped. -/
theorem readStringBody_escapeChar {c : Char} {acc cs ahead : List Char} {fuel : Nat} {a : String}
    (h : Takes (readStringBody (c :: acc) fuel) cs ahead a) :
    Takes (readStringBody acc (fuel + 1)) (escapeChar c ++ cs) ahead a := by
  rcases escapeChar_cases c with ⟨he, hq, hb, hc⟩ | ⟨e, he, hu, hs⟩ | ⟨hc, he⟩
  · rw [he, readStringBody]
    refine Takes.bind (takes_next c) ?_ (by simp)
    split
    · contradiction
    · rename_i heq; cases heq; contradiction
    · rename_i heq; cases heq; contradiction
    · rename_i d _ _ heq
      obtain rfl : c = d := Option.some.inj heq
      have hlt : ¬ c.toNat < 0x20 := by omega
      simp only [hlt, if_false]
      exact h
  · rw [he, readStringBody]
    exact Takes.of_eq (Takes.bind (takes_next '\\')
      (Takes.bind (takes_readEscape_simple hu hs) h (by simp)) (by simp)) (by simp)
  · rw [he, readStringBody]
    have hread := takes_readEscape_unicode hc
    rw [Char.ofNat_toNat] at hread
    exact Takes.of_eq (Takes.bind (takes_next '\\') (Takes.bind hread h (by simp)) (by simp))
      (by simp)

/-- The body of a written string reads back as the string, whatever was read before it. -/
theorem takes_readStringBody (s acc : List Char) (fuel : Nat) (hfuel : s.length < fuel) :
    Takes (readStringBody acc fuel) (s.flatMap escapeChar ++ ['"']) []
      (String.ofList (acc.reverse ++ s)) := by
  induction s generalizing acc fuel with
  | nil =>
    obtain ⟨f, rfl⟩ : ∃ f, fuel = f + 1 := ⟨fuel - 1, by simp at hfuel; omega⟩
    rw [readStringBody, List.append_nil]
    exact Takes.of_eq (Takes.bind (takes_next '"') (Takes.pure _ []) (by simp)) (by simp)
  | cons c s ih =>
    obtain ⟨f, rfl⟩ : ∃ f, fuel = f + 1 := ⟨fuel - 1, by simp at hfuel; omega⟩
    have hrest := ih (c :: acc) f (by simp at hfuel; omega)
    simp only [List.reverse_cons, List.append_assoc, List.singleton_append] at hrest
    simpa only [List.flatMap_cons, List.append_assoc] using readStringBody_escapeChar hrest

theorem length_le_flatMap_escapeChar (s : List Char) :
    s.length ≤ (s.flatMap escapeChar).length := by
  induction s with
  | nil => simp
  | cons c s ih =>
    have hc : 1 ≤ (escapeChar c).length := by
      rcases escapeChar_cases c with ⟨he, -⟩ | ⟨e, he, -⟩ | ⟨-, he⟩ <;> simp [he]
    simp only [List.length_cons, List.flatMap_cons, List.length_append]
    omega

/-- A written string literal, its opening quote read, reads back as the string. -/
theorem takes_readString (s : String) :
    Takes readString (s.toList.flatMap escapeChar ++ ['"']) [] s := by
  constructor
  intro rest pos
  have hlen := length_le_flatMap_escapeChar s.toList
  obtain ⟨p, hp⟩ := takes_readStringBody s.toList []
    ((s.toList.flatMap escapeChar ++ ['"'] ++ [] ++ rest).length + 1)
    (by simp only [List.length_append]; omega) |>.run rest pos
  refine ⟨p, ?_⟩
  rw [readString, Reader.run_get_bind]
  simpa using hp

theorem toList_quoteString (s : String) :
    (quoteString s).toList = '"' :: (s.toList.flatMap escapeChar ++ ['"']) := by
  simp [quoteString]

theorem takes_readColon {ws : List Char} (hws : Blank ws) : Takes readColon (ws ++ [':']) [] () := by
  rw [readColon]
  exact Takes.bind (takes_skipBlanks hws (c := ':') rfl) (takes_eat ':') (by simp)

theorem takes_readKey {ws : List Char} (hws : Blank ws) (k : String) :
    Takes readKey (ws ++ (quoteString k).toList) [] k := by
  rw [readKey, toList_quoteString]
  refine Takes.bind (takes_skipBlanks hws (c := '"') rfl) ?_ (by simp)
  exact Takes.bind (takes_eat '"') (takes_readString k) (by simp)

/-- Before the first key of a map: the key. -/
theorem takes_nextKey_first {ws : List Char} (hws : Blank ws) (k : String) :
    Takes (nextKey true) (ws ++ (quoteString k).toList) [] (some k) := by
  rw [nextKey]
  exact Takes.of_eq (Takes.bind (takes_skipBlanks hws (c := '"') rfl)
    (Takes.bind (takes_readKey blank_nil k) (Takes.pure (some k) []) (by simp))
    (by simp [toList_quoteString])) (by simp)

/-- Before a later key of a map: the separating comma, then the key. -/
theorem takes_nextKey_later {ws ws' : List Char} (hws : Blank ws) (hws' : Blank ws') (k : String) :
    Takes (nextKey false) (ws ++ ',' :: ws' ++ (quoteString k).toList) [] (some k) := by
  rw [nextKey]
  exact Takes.of_eq (Takes.bind (takes_skipBlanks hws (c := ',') rfl)
    (Takes.bind (takes_eat ',') (Takes.bind (takes_readKey hws' k) (Takes.pure (some k) [])
      (by simp)) (by simp)) (by simp)) (by simp)

/-- At the closing brace of a map: no key, and the brace is left for the map's end. -/
theorem takes_nextKey_end {ws : List Char} (hws : Blank ws) (first : Bool) :
    Takes (nextKey first) ws ['}'] none := by
  have h : Takes (nextKey first) (ws ++ []) ['}'] none := by
    rw [nextKey]
    refine Takes.bind (takes_skipBlanks hws (c := '}') rfl) ?_ (by simp)
    exact Takes.pure none ['}']
  simpa using h

theorem takes_afterComma {ws : List Char} {c close : Char} (hws : Blank ws)
    (hc : blankChar c = false) (hne : c ≠ close) (eof : ErrorCode) :
    Takes (afterComma close eof) ws [c] () := by
  have h : Takes (afterComma close eof) (ws ++ []) [c] () := by
    rw [afterComma]
    refine Takes.bind (takes_skipBlanks hws hc) ?_ (by simp)
    have hne' : (c == close) = false := by simpa using hne
    simp only [hne', Bool.false_eq_true, if_false]
    exact Takes.pure () [c]
  simpa using h

/-- Before the first item of a list: an item follows, and is left to be read. -/
theorem takes_nextItem_first {ws : List Char} {c : Char} (hws : Blank ws)
    (hc : blankChar c = false) (hne : c ≠ ']') : Takes (nextItem true) ws [c] true := by
  have h : Takes (nextItem true) (ws ++ []) [c] true := by
    rw [nextItem]
    refine Takes.bind (takes_skipBlanks hws hc) ?_ (by simp)
    split
    · rename_i heq
      exact absurd (Option.some.inj heq) hne
    · exact Takes.pure true [c]
    · exact Takes.pure true [c]
    · rename_i heq
      cases heq
  simpa using h

/-- Before a later item of a list: the separating comma, and an item follows. -/
theorem takes_nextItem_later {ws ws' : List Char} {c : Char} (hws : Blank ws) (hws' : Blank ws')
    (hc : blankChar c = false) (hne : c ≠ ']') :
    Takes (nextItem false) (ws ++ ',' :: ws') [c] true := by
  rw [nextItem]
  refine Takes.bind (takes_skipBlanks hws (c := ',') rfl) ?_ (by simp)
  show Takes (eat >>= fun _ => afterComma ']' .eofWhileParsingValue >>= fun _ => pure true) _ _ _
  refine Takes.bind (takes_eat ',') ?_ (by simp)
  simpa using Takes.bind (f := fun _ => pure true) (takes_afterComma hws' hc hne _)
    (Takes.pure true [c]) (by simp)

/-- At the closing bracket of a list: no more items, and the bracket is left for the list's
end. -/
theorem takes_nextItem_end {ws : List Char} (hws : Blank ws) (first : Bool) :
    Takes (nextItem first) ws [']'] false := by
  have h : Takes (nextItem first) (ws ++ []) [']'] false := by
    rw [nextItem]
    refine Takes.bind (takes_skipBlanks hws (c := ']') rfl) ?_ (by simp)
    exact Takes.pure false [']']
  simpa using h

/-! ## The text the pretty writer lays out -/

/-- A map entry as the pretty writer lays it out at `level`: indentation, key, colon, value. -/
def entryChars (level : Nat) (e : String × Json) : List Char :=
  (indent level).toList ++ (quoteString e.1).toList ++ [':', ' '] ++ (pretty level e.2).toList

/-- A list item as the pretty writer lays it out at `level`: indentation, value. -/
def itemChars (level : Nat) (j : Json) : List Char :=
  (indent level).toList ++ (pretty level j).toList

theorem prettyEntries_eq_map (level : Nat) (es : List (String × Json)) :
    (prettyEntries level es).map String.toList = es.map (entryChars level) := by
  induction es with
  | nil => simp [prettyEntries]
  | cons e es ih =>
    obtain ⟨k, j⟩ := e
    simp [prettyEntries, ih, entryChars]

theorem prettyList_eq_map (level : Nat) (items : List Json) :
    (prettyList level items).map String.toList = items.map (itemChars level) := by
  induction items with
  | nil => simp [prettyList]
  | cons j items ih => simp [prettyList, ih, itemChars]

/-- Parts joined by a separator: the first part, then each later one after the separator. -/
theorem intercalate_map_cons {β : Type} (sep : List Char) (g : β → List Char) (x : β) (xs : List β) :
    sep.intercalate ((x :: xs).map g) = g x ++ xs.flatMap (fun y => sep ++ g y) := by
  induction xs generalizing x with
  | nil => simp
  | cons y ys ih =>
    rw [List.map_cons, List.map_cons, List.intercalate_cons_cons, ← List.map_cons, ih]
    simp

theorem toList_pretty_object (level : Nat) (e : String × Json) (es : List (String × Json)) :
    (pretty level (.object (e :: es))).toList =
      '{' :: '\n' :: (entryChars (level + 1) e ++
        es.flatMap (fun x => ',' :: '\n' :: entryChars (level + 1) x) ++
        '\n' :: ((indent level).toList ++ ['}'])) := by
  have hsep : (",\n" : String).toList = [',', '\n'] := rfl
  simp only [pretty, String.toList_append, String.toList_intercalate, hsep, prettyEntries_eq_map,
    intercalate_map_cons]
  simp

theorem toList_pretty_array (level : Nat) (j : Json) (items : List Json) :
    (pretty level (.array (j :: items))).toList =
      '[' :: '\n' :: (itemChars (level + 1) j ++
        items.flatMap (fun x => ',' :: '\n' :: itemChars (level + 1) x) ++
        '\n' :: ((indent level).toList ++ [']'])) := by
  have hsep : (",\n" : String).toList = [',', '\n'] := rfl
  simp only [pretty, String.toList_append, String.toList_intercalate, hsep, prettyList_eq_map,
    intercalate_map_cons]
  simp

theorem blank_indent (level : Nat) : Blank (indent level).toList := by
  intro c hc
  simp only [indent, String.toList_ofList, List.mem_replicate] at hc
  rw [hc.2]
  rfl

theorem Blank.append {ws ws' : List Char} (h : Blank ws) (h' : Blank ws') : Blank (ws ++ ws') := by
  intro c hc
  rcases List.mem_append.1 hc with hc | hc
  · exact h c hc
  · exact h' c hc

/-- The line break and indentation before an entry or item. -/
theorem blank_newline_indent (level : Nat) : Blank ('\n' :: (indent level).toList) :=
  Blank.append (show Blank ['\n'] by simp [Blank, blankChar]) (blank_indent level)

@[simp] theorem toList_pretty_string (level : Nat) (s : String) :
    (pretty level (.string s)).toList = '"' :: (s.toList.flatMap escapeChar ++ ['"']) :=
  toList_quoteString s

@[simp] theorem toList_pretty_true (level : Nat) : (pretty level (.bool true)).toList = "true".toList := rfl

@[simp] theorem toList_pretty_false (level : Nat) :
    (pretty level (.bool false)).toList = "false".toList := rfl

@[simp] theorem toList_pretty_null (level : Nat) : (pretty level .null).toList = "null".toList := rfl

@[simp] theorem toList_pretty_object_nil (level : Nat) :
    (pretty level (.object [])).toList = ['{', '}'] := by
  show ("\x7b\x7d" : String).toList = _
  simp

@[simp] theorem toList_pretty_array_nil (level : Nat) :
    (pretty level (.array [])).toList = ['[', ']'] := by
  show ("[]" : String).toList = _
  simp

/-- JSON made of null, booleans, strings, lists and objects: no numbers. -/
inductive Textual : Json → Prop
  | null : Textual .null
  | bool (b : Bool) : Textual (.bool b)
  | string (s : String) : Textual (.string s)
  | array {items : List Json} : (∀ j ∈ items, Textual j) → Textual (.array items)
  | object {entries : List (String × Json)} : (∀ e ∈ entries, Textual e.2) → Textual (.object entries)

/-- The pretty text of a value without numbers starts with the letter of a keyword, a quote or
an opening bracket; only `null` starts with `n`. -/
theorem pretty_head {j : Json} (h : Textual j) (level : Nat) :
    ∃ c cs, (pretty level j).toList = c :: cs ∧ c ∈ ['n', 't', 'f', '"', '[', '{'] ∧
      (c = 'n' → j = .null) := by
  cases h with
  | null => exact ⟨'n', _, by simp; rfl, by simp, fun _ => rfl⟩
  | bool b =>
    cases b with
    | true => exact ⟨'t', _, by simp; rfl, by simp, by simp⟩
    | false => exact ⟨'f', _, by simp; rfl, by simp, by simp⟩
  | string s => exact ⟨'"', s.toList.flatMap escapeChar ++ ['"'], by simp, by simp, by simp⟩
  | @array items _ =>
    cases items with
    | nil => exact ⟨'[', [']'], by simp, by simp, by simp⟩
    | cons j items => exact ⟨'[', _, toList_pretty_array level j items, by simp, by simp⟩
  | @object entries _ =>
    cases entries with
    | nil => exact ⟨'{', ['}'], by simp, by simp, by simp⟩
    | cons e es => exact ⟨'{', _, toList_pretty_object level e es, by simp, by simp⟩

/-- What starts the pretty text of a value without numbers is no blank and no closing
bracket. -/
theorem pretty_head_opens {j : Json} (h : Textual j) (level : Nat) :
    ∃ c cs, (pretty level j).toList = c :: cs ∧ blankChar c = false ∧ c ≠ ']' ∧ c ≠ '}' := by
  obtain ⟨c, cs, hcs, hc, -⟩ := pretty_head h level
  refine ⟨c, cs, hcs, ?_⟩
  simp only [List.mem_cons, List.not_mem_nil, or_false] at hc
  rcases hc with rfl | rfl | rfl | rfl | rfl | rfl <;> decide

end Ipld.Json
