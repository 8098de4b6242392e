import Mathlib
import Ipld.Proofs.Repr.Parts

/-!
# Cutting a joined text back into its parts

A `stringjoin` value is its parts joined by a separator, a `stringpairs` value its pairs
joined by an entry delimiter. Reading cuts at the leftmost occurrences, so it gives back what
was joined exactly when every cut falls where joining put a delimiter. An occurrence can
straddle a part and the separator after it: `a:` and `b` joined by `::` read back as `a` and
`:b`. `Delimits sep p` says no occurrence of `sep` starts inside `p` in `p ++ sep`; it
characterizes the first cut (`splitFirst_eq_some_iff`), and so exactly when joined parts
(`splitJoin_intercalate_iff`) and pairs (`splitPairs_joinPairs_iff`) read back.
-/

namespace Ipld

/-- `occursIn` decides whether a text is a run of consecutive characters of another. -/
theorem Text.occursIn_iff_infix {part : List Char} :
    ∀ {cs : List Char}, Text.occursIn part cs = true ↔ part <:+: cs
  | [] => by simp [Text.occursIn, List.isEmpty_iff, List.infix_nil]
  | c :: cs => by
    rw [Text.occursIn, Bool.or_eq_true, List.isPrefixOf_iff_prefix, Text.occursIn_iff_infix,
      List.infix_cons_iff]

namespace Repr

/-- `sep` delimits `p` when no occurrence of `sep` starts inside `p` in `p ++ sep`: in
`p ++ sep ++ rest`, whatever `rest` is, the first `sep` is the one right after `p`. -/
def Delimits (sep p : List Char) : Prop := ¬ sep <:+: p ++ sep.dropLast

instance (sep p : List Char) : Decidable (Delimits sep p) :=
  inferInstanceAs (Decidable (¬ _))

section Cut

variable {sep : List Char}

/-- Nothing comes before a separator that starts the text. -/
theorem delimits_nil (hsep : sep ≠ []) : Delimits sep [] := by
  intro h
  have hlen := h.length_le
  rw [List.nil_append, List.length_dropLast] at hlen
  have : 0 < sep.length := List.length_pos_iff.mpr hsep
  omega

/-- A part that the separator delimits keeps doing so without its first character. -/
theorem Delimits.of_cons {c : Char} {p : List Char} (h : Delimits sep (c :: p)) :
    Delimits sep p :=
  fun hp => h (List.infix_cons_iff.mpr (Or.inr hp))

/-- What the separator leaves of itself after a part is a prefix of the rest of the text. -/
theorem append_dropLast_prefix (p rest : List Char) : p ++ sep.dropLast <+: p ++ sep ++ rest := by
  rw [List.append_assoc, List.prefix_append_right_inj]
  exact (List.dropLast_prefix sep).trans (List.prefix_append sep rest)

/-- Where the separator delimits a nonempty part, the text from that part on does not start
with the separator. -/
theorem not_prefix_of_delimits {c : Char} {p rest : List Char} (h : Delimits sep (c :: p)) :
    ¬ sep <+: c :: (p ++ sep ++ rest) := by
  intro hpre
  have hshort : c :: (p ++ sep.dropLast) <+: c :: (p ++ sep ++ rest) :=
    List.cons_prefix_cons.mpr ⟨rfl, append_dropLast_prefix p rest⟩
  have hlen : sep.length ≤ (c :: (p ++ sep.dropLast)).length := by
    simp only [List.length_cons, List.length_append, List.length_dropLast]
    omega
  exact h (List.infix_cons_iff.mpr
    (Or.inl (List.prefix_of_prefix_length_le hpre hshort hlen)))

/-- A first cut splits the text around the separator, and the separator does not occur in
what stands before it, not even reaching into the separator itself. -/
theorem eq_append_of_splitFirst_eq_some (hsep : sep ≠ []) {s before after : List Char}
    (h : splitFirst sep s = some (before, after)) :
    s = before ++ sep ++ after ∧ Delimits sep before := by
  induction s generalizing before after with
  | nil => simp [splitFirst, List.isEmpty_iff, hsep] at h
  | cons c cs ih =>
    unfold splitFirst at h
    split at h
    case isTrue hpre =>
      obtain ⟨rfl, rfl⟩ := Prod.mk.inj (Option.some.inj h).symm
      obtain ⟨t, ht⟩ := List.isPrefixOf_iff_prefix.mp hpre
      refine ⟨?_, delimits_nil hsep⟩
      rw [← ht, List.drop_left]
      rfl
    case isFalse hpre =>
      obtain ⟨⟨b, a⟩, hsplit, heq⟩ := Option.map_eq_some_iff.mp h
      obtain ⟨rfl, rfl⟩ := Prod.mk.inj heq
      obtain ⟨rfl, hb⟩ := ih hsplit
      refine ⟨by simp, fun hin => ?_⟩
      rcases List.infix_cons_iff.mp hin with hstart | hinside
      · have hlonger : c :: (b ++ sep.dropLast) <+: c :: (b ++ sep ++ a) :=
          List.cons_prefix_cons.mpr ⟨rfl, append_dropLast_prefix b a⟩
        exact hpre (List.isPrefixOf_iff_prefix.mpr (hstart.trans hlonger))
      · exact hb hinside

/-- Where the separator delimits what stands before it, the first cut is taken right there. -/
theorem splitFirst_append_of_delimits (hsep : sep ≠ []) {before : List Char}
    (hdel : Delimits sep before) (after : List Char) :
    splitFirst sep (before ++ sep ++ after) = some (before, after) := by
  induction before with
  | nil =>
    obtain ⟨c, cs, rfl⟩ := List.exists_cons_of_ne_nil hsep
    have hpre : (c :: cs).isPrefixOf (c :: (cs ++ after)) = true :=
      List.isPrefixOf_iff_prefix.mpr (List.prefix_append (c :: cs) after)
    simp only [List.nil_append, List.cons_append]
    rw [splitFirst, if_pos hpre]
    simp
  | cons c b ih =>
    have hnot : ¬ sep.isPrefixOf (c :: (b ++ sep ++ after)) = true := fun h =>
      not_prefix_of_delimits hdel (List.isPrefixOf_iff_prefix.mp h)
    simp only [List.cons_append]
    rw [splitFirst, if_neg hnot, ih hdel.of_cons]
    rfl

/-- The first cut of a text, taken at the first occurrence of a nonempty separator, is the
one before which the separator delimits the text. -/
theorem splitFirst_eq_some_iff (hsep : sep ≠ []) {s before after : List Char} :
    splitFirst sep s = some (before, after) ↔ s = before ++ sep ++ after ∧ Delimits sep before :=
  ⟨eq_append_of_splitFirst_eq_some hsep, fun h => h.1 ▸ splitFirst_append_of_delimits hsep h.2 after⟩

/-- A nonempty separator cuts nowhere exactly when it does not occur. -/
theorem splitFirst_eq_none_iff (hsep : sep ≠ []) {s : List Char} :
    splitFirst sep s = none ↔ ¬ sep <:+: s := by
  constructor
  · intro h hin
    induction s with
    | nil => exact hsep (List.eq_nil_of_infix_nil hin)
    | cons c cs ih =>
      unfold splitFirst at h
      split at h
      case isTrue => cases h
      case isFalse hpre =>
        rcases List.infix_cons_iff.mp hin with hstart | hinside
        · exact hpre (List.isPrefixOf_iff_prefix.mpr hstart)
        · exact ih (Option.map_eq_none_iff.mp h) hinside
  · intro hnot
    cases h : splitFirst sep s with
    | none => rfl
    | some cut =>
      obtain ⟨rfl, -⟩ := (splitFirst_eq_some_iff hsep).mp h
      exact absurd (List.infix_append _ _ _) hnot

/-- Cutting into at least one piece gives at least one piece. -/
theorem cutN_ne_nil (m : Nat) (s : List Char) : cutN sep (m + 1) s ≠ [] := by
  cases m with
  | zero => simp [cutN]
  | succ m =>
    unfold cutN
    split <;> simp

/-- Cutting `p ++ sep ++ rest` gives `p` first exactly when `sep` delimits `p`; otherwise the
first piece is something else. -/
theorem cutN_append_sep_iff (hsep : sep ≠ []) {p rest : List Char} {m : Nat}
    {pieces : List (List Char)} :
    cutN sep (m + 2) (p ++ sep ++ rest) = p :: pieces ↔
      Delimits sep p ∧ cutN sep (m + 1) rest = pieces := by
  by_cases hdel : Delimits sep p
  · have hcut : splitFirst sep (p ++ sep ++ rest) = some (p, rest) :=
      (splitFirst_eq_some_iff hsep).mpr ⟨rfl, hdel⟩
    rw [cutN, hcut]
    simp [hdel]
  · simp only [hdel, false_and, iff_false]
    unfold cutN
    split
    case h_1 hnone =>
      exact absurd (List.infix_append p sep rest) ((splitFirst_eq_none_iff hsep).mp hnone)
    case h_2 b a hcut =>
      intro heq
      obtain ⟨rfl, -⟩ := List.cons.inj heq
      exact hdel ((splitFirst_eq_some_iff hsep).mp hcut).2

/-- Cutting a joined text into as many pieces as were joined, or more, gives the parts back
exactly when the separator delimits every part but the last, and, if more pieces were
allowed, does not occur in the last. -/
theorem cutN_intercalate_iff (hsep : sep ≠ []) :
    ∀ {parts : List (List Char)} {m : Nat}, parts ≠ [] → parts.length ≤ m →
      (cutN sep m (sep.intercalate parts) = parts ↔
        (∀ p ∈ parts.dropLast, Delimits sep p) ∧
          (parts.length < m → ∀ p ∈ parts.getLast?, ¬ sep <:+: p))
  | [], _, hne, _ => absurd rfl hne
  | [p], m, _, hm => by
    obtain ⟨k, rfl⟩ : ∃ k, m = k + 1 := ⟨m - 1, by simp at hm; omega⟩
    cases k with
    | zero => simp [cutN]
    | succ k =>
      have hroom : 1 < k + 1 + 1 := by omega
      simp only [List.intercalate_singleton, List.dropLast_singleton, List.not_mem_nil,
        IsEmpty.forall_iff, implies_true, List.length_singleton, List.getLast?_singleton,
        Option.mem_def, Option.some.injEq, forall_eq', true_and, hroom, forall_const]
      unfold cutN
      split
      case h_1 hnone => simpa using (splitFirst_eq_none_iff hsep).mp hnone
      case h_2 b a hcut =>
        have hcut' := (splitFirst_eq_some_iff hsep).mp hcut
        simp only [List.cons.injEq, cutN_ne_nil, and_false, false_iff, not_not, hcut'.1]
        exact List.infix_append _ _ _
  | p :: q :: rest, m, _, hm => by
    obtain ⟨k, rfl⟩ : ∃ k, m = k + 2 := ⟨m - 2, by simp at hm; omega⟩
    have ih : cutN sep (k + 1) (sep.intercalate (q :: rest)) = q :: rest ↔ _ :=
      cutN_intercalate_iff hsep (by simp) (by simp at hm ⊢; omega)
    rw [List.intercalate_cons_cons, cutN_append_sep_iff hsep, ih]
    simp only [List.dropLast_cons_cons, List.mem_cons, forall_eq_or_imp, List.getLast?_cons_cons,
      List.length_cons]
    constructor
    · rintro ⟨hp, hdel, hlast⟩
      exact ⟨⟨hp, hdel⟩, fun hlt => hlast (by omega)⟩
    · rintro ⟨⟨hp, hdel⟩, hlast⟩
      exact ⟨hp, hdel, fun hlt => hlast (by omega)⟩

/-- A text joined from parts by a nonempty separator is at least one shorter than the
number of parts. -/
theorem length_le_length_intercalate (hsep : sep ≠ []) :
    ∀ parts : List (List Char), parts.length ≤ (sep.intercalate parts).length + 1
  | [] => by simp
  | [p] => by simp
  | p :: q :: rest => by
    have := length_le_length_intercalate hsep (q :: rest)
    have : 0 < sep.length := List.length_pos_iff.mpr hsep
    simp only [List.intercalate_cons_cons, List.length_append, List.length_cons] at *
    omega

/-- Cutting a joined text at every separator gives the parts back exactly when the separator
delimits every part but the last and does not occur in the last. -/
theorem splitAll_intercalate_iff (hsep : sep ≠ []) {parts : List (List Char)}
    (hne : parts ≠ []) :
    splitAll sep (sep.intercalate parts) = parts ↔
      (∀ p ∈ parts.dropLast, Delimits sep p) ∧ ∀ p ∈ parts.getLast?, ¬ sep <:+: p := by
  have hroom := length_le_length_intercalate hsep parts
  have hsplit : splitAll sep (sep.intercalate parts) =
      cutN sep ((sep.intercalate parts).length + 2) (sep.intercalate parts) := by
    simp [splitAll, splitN, List.isEmpty_iff, hsep]
  rw [hsplit, cutN_intercalate_iff hsep hne (by omega)]
  exact and_congr_right fun _ => ⟨fun h => h (by omega), fun h _ => h⟩

end Cut

/-! ## Joined strings -/

theorem String.toList_ne_nil {s : String} (h : s ≠ "") : s.toList ≠ [] := by
  simpa using h

/-- The parts of a `stringjoin` value, joined by a nonempty separator, read back exactly when
the separator delimits each part but the last. -/
theorem splitJoin_intercalate_iff {sep : String} (hsep : sep ≠ "") {parts : List String}
    (hne : parts ≠ []) :
    splitJoin (sep.intercalate parts) sep parts.length = .ok parts ↔
      ∀ p ∈ parts.dropLast, Delimits sep.toList p.toList := by
  have hsep' := String.toList_ne_nil hsep
  have hcut : cutN sep.toList parts.length (sep.toList.intercalate (parts.map String.toList)) =
      parts.map String.toList ↔ _ :=
    cutN_intercalate_iff hsep' (by simpa using hne) (by simp)
  simp only [List.length_map, lt_self_iff_false, false_implies, and_true, ← List.map_dropLast,
    List.forall_mem_map] at hcut
  rw [← hcut]
  have hsplit : splitN sep.toList parts.length (sep.intercalate parts).toList =
      cutN sep.toList parts.length (sep.toList.intercalate (parts.map String.toList)) := by
    simp [splitN, List.isEmpty_iff, hsep']
  simp only [splitJoin, hsplit]
  constructor
  · intro h
    split at h
    case isTrue =>
      have hmap := congrArg (List.map String.toList) (Except.ok.inj h)
      simpa [List.map_map, Function.comp_def] using hmap
    case isFalse => cases h
  · intro h
    rw [h]
    simp [List.map_map, Function.comp_def]

/-! ## Joined pairs -/

section Pairs

variable {α β ε : Type}

/-- A `mapM` succeeds with `bs` exactly when each step succeeds with the matching element. -/
theorem mapM_eq_ok_iff_forall₂ {f : α → Except ε β} :
    ∀ {l : List α} {bs : List β}, l.mapM f = .ok bs ↔ List.Forall₂ (fun a b => f a = .ok b) l bs
  | [], bs => by
    rw [List.forall₂_nil_left_iff]
    exact ⟨fun h => (Except.ok.inj h).symm, fun h => h ▸ rfl⟩
  | a :: l, bs => by
    rw [List.mapM_cons, bind_eq_ok, List.forall₂_cons_left_iff]
    simp only [bind_eq_ok, pure_eq_ok, mapM_eq_ok_iff_forall₂]
    constructor
    · rintro ⟨b, hb, rest, hrest, rfl⟩
      exact ⟨b, rest, hb, hrest, rfl⟩
    · rintro ⟨b, rest, hb, hrest, rfl⟩
      exact ⟨b, hb, rest, hrest, rfl⟩

/-- Steps that each succeed exactly on the text `g b` of a result `b` with `P b` succeed on a
list exactly when it is the texts of the results. -/
theorem forall₂_ok_iff {f : α → Except ε β} {g : β → α} {P : β → Prop}
    (hf : ∀ a b, f a = .ok b ↔ a = g b ∧ P b) :
    ∀ {l : List α} {bs : List β},
      List.Forall₂ (fun a b => f a = .ok b) l bs ↔ l = bs.map g ∧ ∀ b ∈ bs, P b
  | l, [] => by simp
  | l, b :: bs => by
    rw [List.forall₂_cons_right_iff, List.map_cons, List.forall_mem_cons]
    constructor
    · rintro ⟨a, rest, hab, hrest, rfl⟩
      obtain ⟨rfl, hb⟩ := (hf a b).mp hab
      obtain ⟨rfl, hbs⟩ := (forall₂_ok_iff hf).mp hrest
      exact ⟨rfl, hb, hbs⟩
    · rintro ⟨rfl, hb, hbs⟩
      exact ⟨g b, bs.map g, (hf _ _).mpr ⟨rfl, hb⟩, (forall₂_ok_iff hf).mpr ⟨rfl, hbs⟩, rfl⟩

end Pairs

/-- A part is a prefix of the text it is joined into first. -/
theorem prefix_intercalate_cons (sep p : List Char) (parts : List (List Char)) :
    p <+: sep.intercalate (p :: parts) := by
  cases parts with
  | nil => simp
  | cons q parts =>
    rw [List.intercalate_cons_cons, List.append_assoc]
    exact List.prefix_append p _

/-- The text of a pair. -/
theorem joinPairs_eq (pairs : List (String × String)) (inner entry : String) :
    joinPairs pairs inner entry = entry.intercalate (pairs.map fun kv => kv.1 ++ inner ++ kv.2) :=
  rfl

section JoinedPairs

variable {inner entry : String} {pairs : List (String × String)}

theorem toList_joinPairs :
    (joinPairs pairs inner entry).toList =
      entry.toList.intercalate (pairs.map fun kv => (kv.1 ++ inner ++ kv.2).toList) := by
  simp [joinPairs_eq, List.map_map, Function.comp_def]

/-- Pairs joined around a nonempty inner delimiter make a nonempty text. -/
theorem joinPairs_isEmpty (hinner : inner ≠ "") (hne : pairs ≠ []) :
    (joinPairs pairs inner entry).isEmpty = false := by
  obtain ⟨kv, rest, rfl⟩ := List.exists_cons_of_ne_nil hne
  rw [String.isEmpty_eq_false_iff, ne_eq, ← String.toList_inj, toList_joinPairs,
    String.toList_empty, List.map_cons]
  intro hnil
  have hpre := prefix_intercalate_cons entry.toList (kv.1 ++ inner ++ kv.2).toList
    (rest.map fun kv => (kv.1 ++ inner ++ kv.2).toList)
  rw [hnil, List.prefix_nil] at hpre
  have hempty : kv.1 = "" ∧ inner = "" ∧ kv.2 = "" := by simpa using hpre
  exact hinner hempty.2.1

/-- A step that reads a piece as the texts before and after its first inner delimiter
succeeds with a pair exactly on that pair's text, when the inner delimiter delimits its key. -/
theorem readPair_eq_ok_iff {ε : Type} (hinner : inner ≠ "")
    {read : List Char → Except ε (String × String)}
    (hsome : ∀ a k v, splitFirst inner.toList a = some (k, v) →
      read a = .ok (String.ofList k, String.ofList v))
    (hnone : ∀ a, splitFirst inner.toList a = none → ∀ kv, read a ≠ .ok kv)
    (a : List Char) (kv : String × String) :
    read a = .ok kv ↔ a = (kv.1 ++ inner ++ kv.2).toList ∧ Delimits inner.toList kv.1.toList := by
  have hinner' := String.toList_ne_nil hinner
  have hpair : a = (kv.1 ++ inner ++ kv.2).toList → Delimits inner.toList kv.1.toList →
      splitFirst inner.toList a = some (kv.1.toList, kv.2.toList) := fun ha hdel =>
    (splitFirst_eq_some_iff hinner').mpr ⟨by simp [ha], hdel⟩
  cases hcut : splitFirst inner.toList a with
  | none =>
    refine ⟨fun h => absurd h (hnone a hcut kv), fun ⟨ha, hdel⟩ => ?_⟩
    rw [hpair ha hdel] at hcut
    cases hcut
  | some cut =>
    obtain ⟨k, v⟩ := cut
    rw [hsome a k v hcut]
    constructor
    · rintro ⟨⟩
      obtain ⟨rfl, hk⟩ := (splitFirst_eq_some_iff hinner').mp hcut
      simp [hk]
    · rintro ⟨ha, hdel⟩
      rw [hpair ha hdel] at hcut
      obtain ⟨rfl, rfl⟩ := Prod.mk.inj (Option.some.inj hcut)
      simp

/-- The pairs of a `stringpairs` value, each `k<inner>v` and joined by `entry`, both nonempty,
read back exactly when the inner delimiter delimits every key, the entry delimiter delimits
every pair's text but the last, and the entry delimiter does not occur in the last. -/
theorem splitPairs_joinPairs_iff (hinner : inner ≠ "") (hentry : entry ≠ "") :
    splitPairs (joinPairs pairs inner entry) inner entry = .ok pairs ↔
      (∀ kv ∈ pairs, Delimits inner.toList kv.1.toList) ∧
        (∀ kv ∈ pairs.dropLast, Delimits entry.toList (kv.1 ++ inner ++ kv.2).toList) ∧
        ∀ kv ∈ pairs.getLast?, ¬ entry.toList <:+: (kv.1 ++ inner ++ kv.2).toList := by
  rcases eq_or_ne pairs [] with rfl | hne
  · simp [splitPairs, joinPairs]
  unfold splitPairs
  rw [if_neg (by simp [joinPairs_isEmpty hinner hne]), mapM_eq_ok_iff_forall₂,
    forall₂_ok_iff (readPair_eq_ok_iff hinner (fun a k v h => by simp [h])
      (fun a h kv => by simp [h])),
    toList_joinPairs, splitAll_intercalate_iff (String.toList_ne_nil hentry) (by simpa using hne),
    ← List.map_dropLast, List.forall_mem_map, List.getLast?_map]
  simp only [Option.mem_map, forall_exists_index, and_imp, forall_apply_eq_imp_iff₂]
  tauto

end JoinedPairs

/-! ## Reading back a joined value -/

/-- Cutting inverts joining exactly at clean boundaries: the parts of a string joined by a
nonempty separator read back when the separator delimits each part but the last, and the
pairs of a `stringpairs` text when the inner delimiter delimits each key, the entry delimiter
each pair's text but the last, and the entry delimiter occurs in no last pair's text. -/
theorem splitting_inverts_joining_iff {sep inner entry : String} (hsep : sep ≠ "")
    (hinner : inner ≠ "") (hentry : entry ≠ "") {parts : List String} (hparts : parts ≠ [])
    (pairs : List (String × String)) :
    (splitJoin (sep.intercalate parts) sep parts.length = .ok parts ↔
        ∀ p ∈ parts.dropLast, Delimits sep.toList p.toList) ∧
      (splitPairs (joinPairs pairs inner entry) inner entry = .ok pairs ↔
        (∀ kv ∈ pairs, Delimits inner.toList kv.1.toList) ∧
          (∀ kv ∈ pairs.dropLast, Delimits entry.toList (kv.1 ++ inner ++ kv.2).toList) ∧
          ∀ kv ∈ pairs.getLast?, ¬ entry.toList <:+: (kv.1 ++ inner ++ kv.2).toList) :=
  ⟨splitJoin_intercalate_iff hsep hparts, splitPairs_joinPairs_iff hinner hentry⟩

theorem splitting_inverts_joining_iff_straddled :
    ("::" ≠ "" ∧ "aa" ≠ "" ∧ "," ≠ "" ∧ ["a:", "b"] ≠ []) ∧
      ((splitJoin (String.intercalate "::" ["a:", "b"]) "::" ["a:", "b"].length =
            .ok ["a:", "b"] ↔
          ∀ p ∈ ["a:", "b"].dropLast, Delimits "::".toList p.toList) ∧
        (splitPairs (joinPairs [("a", "b")] "aa" ",") "aa" "," = .ok [("a", "b")] ↔
          (∀ kv ∈ [("a", "b")], Delimits "aa".toList kv.1.toList) ∧
            (∀ kv ∈ [("a", "b")].dropLast, Delimits ",".toList (kv.1 ++ "aa" ++ kv.2).toList) ∧
            ∀ kv ∈ [("a", "b")].getLast?, ¬ ",".toList <:+: (kv.1 ++ "aa" ++ kv.2).toList)) :=
  ⟨by decide, splitting_inverts_joining_iff (by decide) (by decide) (by decide) (by decide) _⟩

/-- No part holds the separator, and still the parts do not read back: the first `::` of
`a:::b` starts inside `a:`. Nor does a pair whose key `a` holds neither delimiter: before the
inner delimiter `aa` it reads back with the empty key. -/
theorem joined_parts_straddle_delimiters :
    (Text.includes "a:" "::" = false ∧
        splitJoin (String.intercalate "::" ["a:", "b"]) "::" 2 = .ok ["a", ":b"]) ∧
      (Text.includes "a" "aa" = false ∧ Text.includes "a" "," = false ∧
        Text.includes "b" "," = false ∧
        splitPairs (joinPairs [("a", "b")] "aa" ",") "aa" "," = .ok [("", "ab")]) := by
  decide

end Repr

end Ipld
