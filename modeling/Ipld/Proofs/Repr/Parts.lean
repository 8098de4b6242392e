import Mathlib
import Ipld.Repr.Text
import Ipld.Proofs.Repr.Written

/-!
# Pieces of a split string are shorter

Reading a value from its string form reads each part that the string is cut into. Every
part is strictly shorter than the string once the separator is nonempty and a cut was made,
so reading from text descends in the length of the text.
-/

namespace Ipld.Repr

section Split

variable {sep : List Char}

theorem splitFirst_length :
    ∀ {s before after : List Char}, splitFirst sep s = some (before, after) →
      before.length + sep.length + after.length = s.length
  | [], before, after, h => by
    unfold splitFirst at h
    split at h
    case isTrue hsep =>
      obtain ⟨rfl, rfl⟩ := Prod.mk.inj (Option.some.inj h).symm
      simp [List.isEmpty_iff.mp hsep]
    case isFalse => cases h
  | c :: cs, before, after, h => by
    unfold splitFirst at h
    split at h
    case isTrue hpre =>
      obtain ⟨rfl, rfl⟩ := Prod.mk.inj (Option.some.inj h).symm
      have hle := (List.isPrefixOf_iff_prefix.mp hpre).length_le
      simp only [List.length_nil, List.length_drop]
      omega
    case isFalse =>
      obtain ⟨⟨b, a⟩, hsplit, heq⟩ := Option.map_eq_some_iff.mp h
      obtain ⟨rfl, rfl⟩ := Prod.mk.inj heq
      have := splitFirst_length hsplit
      simp only [List.length_cons]
      omega

theorem cutN_le : ∀ {m : Nat} {s p : List Char}, p ∈ cutN sep m s → p.length ≤ s.length
  | 0, s, p, h => by simp [cutN] at h
  | 1, s, p, h => by simp only [cutN, List.mem_singleton] at h; rw [h]
  | m + 2, s, p, h => by
    unfold cutN at h
    split at h
    case h_1 => simp only [List.mem_singleton] at h; rw [h]
    case h_2 before after hsplit =>
      have hlen := splitFirst_length hsplit
      rcases List.mem_cons.mp h with rfl | hmem
      · omega
      · have := cutN_le hmem
        omega

/-- Once a nonempty separator has cut a text in two or more pieces, each is shorter. -/
theorem cutN_lt (hsep : sep ≠ []) : ∀ {m : Nat} {s p : List Char},
    2 ≤ (cutN sep m s).length → p ∈ cutN sep m s → p.length < s.length
  | 0, s, p, _, h => by simp [cutN] at h
  | 1, s, p, hlen, _ => by simp [cutN] at hlen
  | m + 2, s, p, hlen, h => by
    have hpos : 0 < sep.length := List.length_pos_iff.mpr hsep
    unfold cutN at hlen h
    split at h
    case h_1 hsplit => simp [hsplit] at hlen
    case h_2 before after hsplit =>
      have hcut := splitFirst_length hsplit
      rcases List.mem_cons.mp h with rfl | hmem
      · omega
      · have := cutN_le hmem
        omega

end Split

theorem chunks_le : ∀ {m : Nat} {s p : List Char}, p ∈ chunks m s → p.length ≤ s.length
  | 0, s, p, h => by simp [chunks] at h
  | 1, s, p, h => by simp only [chunks, List.mem_singleton] at h; rw [h]
  | m + 2, [], p, h => by simp only [chunks, List.mem_singleton] at h; rw [h]
  | m + 2, c :: cs, p, h => by
    simp only [chunks, List.mem_cons] at h
    rcases h with rfl | hmem
    · simp
    · have := chunks_le hmem
      simp only [List.length_cons]
      omega

theorem splitN_le {sep : List Char} {m : Nat} {s p : List Char} (h : p ∈ splitN sep m s) :
    p.length ≤ s.length := by
  unfold splitN at h
  split at h
  case isTrue =>
    split at h
    · simp at h
    · simp only [List.mem_singleton] at h; rw [h]
    · rcases List.mem_cons.mp h with rfl | hmem
      · simp
      · exact chunks_le hmem
  case isFalse => exact cutN_le h

/-- Each part of a string joined from at least two parts with a nonempty separator is
shorter than the string. -/
theorem splitJoin_lt {s sep : String} {n : Nat} {parts : List String}
    (hsep : sep ≠ "") (hn : 2 ≤ n) (h : splitJoin s sep n = .ok parts) :
    ∀ p ∈ parts, p.length < s.length := by
  have hsep' : sep.toList ≠ [] := by simpa using hsep
  have hcut : splitN sep.toList n s.toList = cutN sep.toList n s.toList := by
    simp [splitN, List.isEmpty_iff, hsep']
  simp only [splitJoin, hcut] at h
  split at h
  case isFalse => cases h
  case isTrue hlen =>
    cases h
    intro p hp
    obtain ⟨q, hq, rfl⟩ := List.mem_map.mp hp
    have := cutN_lt hsep' (by omega) hq
    simpa [String.length_ofList, String.length_toList] using this

/-- A joined string reads as exactly as many parts as asked for. -/
theorem splitJoin_length {s sep : String} {n : Nat} {parts : List String}
    (h : splitJoin s sep n = .ok parts) : parts.length = n := by
  simp only [splitJoin] at h
  split at h
  case isFalse => cases h
  case isTrue hlen =>
    cases h
    simpa using hlen

/-- Each result of a `mapM` that succeeds is the result of its step on some item. -/
theorem exists_of_mapM_eq_ok {α β ε : Type} {f : α → Except ε β} :
    ∀ {l : List α} {bs : List β}, l.mapM f = .ok bs → ∀ b ∈ bs, ∃ a ∈ l, f a = .ok b
  | [], bs, h => by
    cases h
    simp
  | a :: l, bs, h => by
    rw [List.mapM_cons, bind_eq_ok] at h
    obtain ⟨b, hb, h⟩ := h
    rw [bind_eq_ok] at h
    obtain ⟨rest, hrest, h⟩ := h
    rw [pure_eq_ok] at h
    subst h
    intro c hc
    rcases List.mem_cons.mp hc with rfl | hc
    · exact ⟨a, List.mem_cons_self, hb⟩
    · obtain ⟨a', ha', hstep⟩ := exists_of_mapM_eq_ok hrest c hc
      exact ⟨a', List.mem_cons_of_mem a ha', hstep⟩

/-- Each value of a pair cut from a string at a nonempty inner delimiter is shorter than the
string. -/
theorem splitPairs_lt {s inner entry : String} {pairs : List (String × String)}
    (hinner : inner ≠ "") (h : splitPairs s inner entry = .ok pairs) :
    ∀ kv ∈ pairs, kv.2.length < s.length := by
  have hinner' : 0 < inner.toList.length := by
    simpa [List.length_pos_iff] using hinner
  unfold splitPairs at h
  split at h
  case isTrue => cases h; simp
  case isFalse =>
    intro kv hkv
    obtain ⟨piece, hpiece, hstep⟩ := exists_of_mapM_eq_ok h kv hkv
    have hle := splitN_le hpiece
    split at hstep
    case h_1 k v hsplit =>
      cases hstep
      have := splitFirst_length hsplit
      simp only [String.length_ofList, String.length_toList] at hle ⊢
      omega
    case h_2 => cases hstep

/-- The text after a nonempty prefix is shorter than the string. -/
theorem drop_prefix_lt {s pre : String} (hpre : pre ≠ "") (h : s.startsWith pre = true) :
    (String.ofList (s.toList.drop pre.length)).length < s.length := by
  have hpos : 0 < pre.length := by
    simpa [← String.length_toList, List.length_pos_iff] using hpre
  have hle : pre.length ≤ s.length := by
    simpa [String.length_toList] using (String.startsWith_string_iff.mp h).length_le
  simp only [String.length_ofList, List.length_drop, String.length_toList]
  omega

end Ipld.Repr
