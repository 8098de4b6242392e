import Mathlib
import Ipld.Proofs.Json.Reading
import Ipld.Json.Decode

/-!
# What the decoders read back from the pretty writer

The decoders run on a cursor and a budget of containers that may still open. For a decoder
`d`, `Reads d cs ahead a nest` says that on any text that starts with `cs ++ ahead` it reads
`cs` and returns `a` while more than `nest` containers may open, and fails while at least one
but at most `nest` may. `Decodes d j a` asks that at every indentation of `pretty`, the depth
of `j` being the room needed.

Three things shape the work. The room is threaded through the whole run, so each combinator
gets one lemma for both sides of the limit, and the room needed by a sequence is the largest
of its parts. A key, a separator or a closing bracket is read only after looking at the next
character, so each step is stated with what stands ahead of it. And the loops over entries
and items are fuelled, so each gets a step lemma and a run lemma by induction over the list
written, with fuel to spare.
-/

namespace Ipld.Json

namespace Decoder

variable {α β : Type}

theorem run_bind_ok {x : Decoder α} {f : α → Decoder β} {s s' : DecodeState} {a : α}
    (h : x.run.run s = (.ok a, s')) : (x >>= f).run.run s = (f a).run.run s' := by
  rw [ExceptT.run_bind, StateT.run_bind, h]
  rfl

theorem run_bind_error {x : Decoder α} {f : α → Decoder β} {s s' : DecodeState} {e : Failure}
    (h : x.run.run s = (.error e, s')) : (x >>= f).run.run s = (.error e, s') := by
  rw [ExceptT.run_bind, StateT.run_bind, h]
  rfl

theorem run_pure (a : α) (s : DecodeState) : (pure a : Decoder α).run.run s = (.ok a, s) := rfl

theorem run_read {r : Reader α} {c c' : Cursor} {a : α} (h : r.run c = .ok (a, c')) (depth : Nat) :
    (read r).run.run ⟨c, depth⟩ = (.ok a, ⟨c', depth⟩) := by
  have hget : (get : Decoder DecodeState).run.run ⟨c, depth⟩ = (.ok ⟨c, depth⟩, ⟨c, depth⟩) := rfl
  rw [read, run_bind_ok hget]
  dsimp only
  rw [h]
  rfl

theorem run_tryCatch_ok {d : Decoder α} {handle : Failure → Decoder α} {s s' : DecodeState}
    {a : α} (h : d.run.run s = (.ok a, s')) : (tryCatch d handle).run.run s = (.ok a, s') := by
  have h' : StateT.run d s = _ := h
  simp only [tryCatch, tryCatchThe, MonadExceptOf.tryCatch, ExceptT.tryCatch, ExceptT.run_mk,
    StateT.run_bind, h']
  rfl

theorem run_tryCatch_error {d : Decoder α} {handle : Failure → Decoder α} {s s' : DecodeState}
    {e : Failure} (h : d.run.run s = (.error e, s')) :
    (tryCatch d handle).run.run s = (handle e).run.run s' := by
  have h' : StateT.run d s = _ := h
  simp only [tryCatch, tryCatchThe, MonadExceptOf.tryCatch, ExceptT.tryCatch, ExceptT.run_mk,
    StateT.run_bind, h']
  rfl

theorem run_map_ok {d : Decoder α} {g : α → β} {s s' : DecodeState} {a : α}
    (h : d.run.run s = (.ok a, s')) : (g <$> d).run.run s = (.ok (g a), s') := by
  rw [map_eq_pure_bind, run_bind_ok h]
  rfl

theorem run_map_error {d : Decoder α} {g : α → β} {s s' : DecodeState} {e : Failure}
    (h : d.run.run s = (.error e, s')) : (g <$> d).run.run s = (.error e, s') := by
  rw [map_eq_pure_bind, run_bind_error h]

theorem run_throw (e : Failure) (s : DecodeState) : (throw e : Decoder α).run.run s = (.error e, s) :=
  rfl

/-- `attempt` never fails: it hands over what the step gave, failure included. -/
theorem run_attempt (d : Decoder α) (s : DecodeState) :
    (attempt d).run.run s = (.ok (d.run.run s).1, (d.run.run s).2) := by
  rcases h : d.run.run s with ⟨_ | a, s'⟩
  · rw [attempt, run_tryCatch_error (run_map_error h)]
    rfl
  · rw [attempt, run_tryCatch_ok (run_map_ok h)]

theorem run_placed_ok {d : Decoder α} {s s' : DecodeState} {a : α} (h : d.run.run s = (.ok a, s')) :
    (placed d).run.run s = (.ok a, s') :=
  run_tryCatch_ok h

theorem run_placed_error {d : Decoder α} {s s' : DecodeState} {e : Failure}
    (h : d.run.run s = (.error e, s')) : ∃ e' s'', (placed d).run.run s = (.error e', s'') := by
  rw [placed, run_tryCatch_error h]
  cases e.pos with
  | some p => exact ⟨e, s', rfl⟩
  | none => exact ⟨_, _, rfl⟩

theorem run_within_ok {d : Decoder α} {p : Path} {s s' : DecodeState} {a : α}
    (h : d.run.run s = (.ok a, s')) : (within p d).run.run s = (.ok a, s') :=
  run_tryCatch_ok h

theorem run_within_error {d : Decoder α} {p : Path} {s s' : DecodeState} {e : Failure}
    (h : d.run.run s = (.error e, s')) : ∃ e', (within p d).run.run s = (.error e', s') := by
  rw [within, run_tryCatch_error h]
  cases e.path with
  | some q => exact ⟨e, rfl⟩
  | none => exact ⟨_, rfl⟩

theorem peekPosition_run (c : Cursor) : ∃ p, peekPosition.run c = .ok (p, c) := by
  obtain ⟨rest, pos⟩ := c
  match rest with
  | [] => exact ⟨_, rfl⟩
  | ch :: more =>
    by_cases hch : ch = '\n'
    · subst hch
      exact ⟨_, rfl⟩
    · refine ⟨⟨pos.line, pos.column + 1⟩, ?_⟩
      rw [peekPosition, Reader.run_get_bind]
      dsimp only
      split
      · contradiction
      · rename_i heq
        cases heq
        contradiction
      · rfl

/-- A failure of syntax reported one byte ahead is a failure. -/
theorem run_failAhead (code : ErrorCode) (s : DecodeState) :
    ∃ e s', (failAhead code : Decoder α).run.run s = (.error e, s') := by
  obtain ⟨p, hp⟩ := peekPosition_run s.cursor
  rw [failAhead, run_bind_ok (run_read hp s.depth)]
  exact ⟨_, _, rfl⟩

theorem run_enter_ok {depth : Nat} (hd : 1 < depth) (o : Char) (rest : List Char) (pos : Pos) :
    enter.run.run ⟨⟨o :: rest, pos⟩, depth⟩ = (.ok (), ⟨⟨rest, pos.after o⟩, depth - 1⟩) := by
  have hle : ¬ depth ≤ 1 := by omega
  have hget : (get : Decoder DecodeState).run.run ⟨⟨o :: rest, pos⟩, depth⟩ =
      (.ok ⟨⟨o :: rest, pos⟩, depth⟩, ⟨⟨o :: rest, pos⟩, depth⟩) := rfl
  rw [enter, run_bind_ok hget]
  dsimp only
  rw [if_neg hle]
  rfl

theorem run_enter_error {depth : Nat} (hd : depth ≤ 1) (c : Cursor) :
    ∃ e s', enter.run.run ⟨c, depth⟩ = (.error e, s') := by
  have hget : (get : Decoder DecodeState).run.run ⟨c, depth⟩ = (.ok ⟨c, depth⟩, ⟨c, depth⟩) := rfl
  rw [enter, run_bind_ok hget]
  dsimp only
  rw [if_pos hd]
  exact run_failAhead _ _

theorem run_leave (c : Cursor) (depth : Nat) :
    leave.run.run ⟨c, depth⟩ = (.ok (), ⟨c, depth + 1⟩) := rfl

theorem run_attempt_of {d : Decoder α} {s s' : DecodeState} {r : Except Failure α}
    (h : d.run.run s = (r, s')) : (attempt d).run.run s = (.ok r, s') := by
  rw [run_attempt, h]

end Decoder

open Decoder

/-- On any text that starts with `cs ++ ahead`: when more than `nest` containers may still
open, `d` reads `cs`, stops in front of `ahead` and returns `a`, leaving the room for
containers as it found it; when at least one but no more than `nest` may, `d` fails. -/
structure Reads {α : Type} (d : Decoder α) (cs ahead : List Char) (a : α) (nest : Nat) : Prop where
  /-- Enough room: the value. -/
  ok : ∀ rest pos depth, nest < depth →
    ∃ pos', d.run.run ⟨⟨cs ++ ahead ++ rest, pos⟩, depth⟩ = (.ok a, ⟨⟨ahead ++ rest, pos'⟩, depth⟩)
  /-- Too little room: a failure. -/
  fails : ∀ rest pos depth, 0 < depth → depth ≤ nest →
    ∃ e s, d.run.run ⟨⟨cs ++ ahead ++ rest, pos⟩, depth⟩ = (.error e, s)

namespace Reads

variable {α β : Type} {d x : Decoder α} {f : α → Decoder β} {cs cs' ahead ahead' : List Char}
  {a : α} {b : β} {n m : Nat}

/-- Two steps in a row: the second starts where the first stopped, and the room the pair needs
is the larger of the two. -/
theorem bind (hx : Reads x cs ahead a n) (hf : Reads (f a) cs' ahead' b m)
    (hpre : ahead <+: cs' ++ ahead') : Reads (x >>= f) (cs ++ cs') ahead' b (max n m) := by
  obtain ⟨t, ht⟩ := hpre
  have htext : ∀ rest, cs ++ cs' ++ ahead' ++ rest = cs ++ ahead ++ (t ++ rest) := by
    intro rest
    simp only [List.append_assoc, ← ht]
  have hleft : ∀ rest, ahead ++ (t ++ rest) = cs' ++ ahead' ++ rest := by
    intro rest
    simp only [← List.append_assoc, ht]
  constructor
  · intro rest pos depth hd
    obtain ⟨p₁, h₁⟩ := hx.ok (t ++ rest) pos depth (by omega)
    rw [hleft] at h₁
    obtain ⟨p₂, h₂⟩ := hf.ok rest p₁ depth (by omega)
    exact ⟨p₂, by rw [htext, run_bind_ok h₁, h₂]⟩
  · intro rest pos depth hpos hd
    by_cases hn : depth ≤ n
    · obtain ⟨e, s, h₁⟩ := hx.fails (t ++ rest) pos depth hpos hn
      exact ⟨e, s, by rw [htext, run_bind_error h₁]⟩
    · obtain ⟨p₁, h₁⟩ := hx.ok (t ++ rest) pos depth (by omega)
      rw [hleft] at h₁
      obtain ⟨e, s, h₂⟩ := hf.fails rest p₁ depth hpos (by omega)
      exact ⟨e, s, by rw [htext, run_bind_ok h₁, h₂]⟩

/-- A reading step reads as it does alone, in any room. -/
theorem read {r : Reader α} (h : Takes r cs ahead a) : Reads (Decoder.read r) cs ahead a 0 := by
  constructor
  · intro rest pos depth _
    obtain ⟨p, hp⟩ := h.run rest pos
    exact ⟨p, run_read hp depth⟩
  · intro rest pos depth hpos hd
    omega

theorem pure (a : α) (ahead : List Char) : Reads (Pure.pure a : Decoder α) [] ahead a 0 := by
  constructor
  · intro rest pos depth _
    exact ⟨pos, rfl⟩
  · intro rest pos depth hpos hd
    omega

theorem map {g : α → β} (h : Reads d cs ahead a n) : Reads (g <$> d) cs ahead (g a) n := by
  constructor
  · intro rest pos depth hd
    obtain ⟨p, hp⟩ := h.ok rest pos depth hd
    exact ⟨p, run_map_ok hp⟩
  · intro rest pos depth hpos hd
    obtain ⟨e, s, hs⟩ := h.fails rest pos depth hpos hd
    exact ⟨e, s, run_map_error hs⟩

theorem placed (h : Reads d cs ahead a n) : Reads (Decoder.placed d) cs ahead a n := by
  constructor
  · intro rest pos depth hd
    obtain ⟨p, hp⟩ := h.ok rest pos depth hd
    exact ⟨p, run_placed_ok hp⟩
  · intro rest pos depth hpos hd
    obtain ⟨e, s, hs⟩ := h.fails rest pos depth hpos hd
    exact run_placed_error hs

theorem within {path : Path} (h : Reads d cs ahead a n) : Reads (Decoder.within path d) cs ahead a n := by
  constructor
  · intro rest pos depth hd
    obtain ⟨p, hp⟩ := h.ok rest pos depth hd
    exact ⟨p, run_within_ok hp⟩
  · intro rest pos depth hpos hd
    obtain ⟨e, s, hs⟩ := h.fails rest pos depth hpos hd
    obtain ⟨e', he'⟩ := run_within_error (p := path) hs
    exact ⟨e', s, he'⟩

/-- Skipping blanks in front of `c` and going on by what `c` is. -/
theorem blanks_bind {ws : List Char} {g : Option Char → Decoder β}
    (hws : Blank ws) (c : Char) (hc : blankChar c = false) (hg : Reads (g (some c)) (c :: cs) ahead b m) :
    Reads (blanks >>= g) (ws ++ c :: cs) ahead b m := by
  unfold blanks
  simpa using bind (read (takes_skipBlanks hws hc)) hg (by simp)

/-- A container: its opening character, what `body` reads inside, and what `close` reads to
end it. It needs one more level of room than its inside. -/
theorem container {body : Decoder α} {close : Decoder Unit} (hbody : Reads body cs ahead a n)
    (hclose : Reads close cs' [] () 0) (hpre : ahead <+: cs') (o : Char) :
    Reads (Decoder.container body close) (o :: (cs ++ cs')) [] a (n + 1) := by
  obtain ⟨t, rfl⟩ := hpre
  constructor
  · intro rest pos depth hd
    obtain ⟨p₁, h₁⟩ := hbody.ok (t ++ rest) (pos.after o) (depth - 1) (by omega)
    obtain ⟨p₂, h₂⟩ := hclose.ok rest p₁ (depth - 1) (by omega)
    simp only [List.append_nil, List.append_assoc] at h₁ h₂
    refine ⟨p₂, ?_⟩
    simp only [List.append_nil, List.cons_append, List.append_assoc]
    rw [Decoder.container, run_bind_ok (run_enter_ok (by omega) o _ pos),
      run_bind_ok (run_attempt_of h₁), run_bind_ok (run_attempt_of h₂), run_bind_ok (run_leave _ _)]
    have hdepth : depth - 1 + 1 = depth := by omega
    rw [hdepth]
    rfl
  · intro rest pos depth hpos hd
    by_cases h1 : depth ≤ 1
    · obtain ⟨e, s, he⟩ := run_enter_error h1 ⟨o :: (cs ++ (ahead ++ t)) ++ [] ++ rest, pos⟩
      exact ⟨e, s, by rw [Decoder.container, run_bind_error he]⟩
    · obtain ⟨e, s₁, h₁⟩ := hbody.fails (t ++ rest) (pos.after o) (depth - 1) (by omega) (by omega)
      simp only [List.append_assoc] at h₁
      obtain ⟨r₂, s₂, h₂⟩ : ∃ r₂ s₂, (attempt close).run.run s₁ = (.ok r₂, s₂) :=
        ⟨_, _, run_attempt close s₁⟩
      refine ⟨e, ⟨s₂.cursor, s₂.depth + 1⟩, ?_⟩
      simp only [List.append_nil, List.cons_append, List.append_assoc]
      rw [Decoder.container, run_bind_ok (run_enter_ok (by omega) o _ pos),
        run_bind_ok (run_attempt_of h₁), run_bind_ok h₂, run_bind_ok (run_leave _ _)]
      rfl

end Reads

mutual

/-- The containers nested at the deepest point of a value, itself included. -/
def depth : Json → Nat
  | .array items => depthList items + 1
  | .object entries => depthEntries entries + 1
  | _ => 0

/-- The deepest `depth` of the items. -/
def depthList : List Json → Nat
  | [] => 0
  | j :: rest => max (depth j) (depthList rest)

/-- The deepest `depth` of the entry values. -/
def depthEntries : List (String × Json) → Nat
  | [] => 0
  | (_, j) :: rest => max (depth j) (depthEntries rest)

end

/-- `d` reads the pretty text of `j`, at any indentation and after any blanks, and gives `a`
when the room for containers exceeds `j`'s depth; with less room it fails. -/
structure Decodes {α : Type} (d : Decoder α) (j : Json) (a : α) : Prop where
  /-- The text at each indentation, after any blanks. -/
  reads : ∀ level ws, Blank ws → Reads d (ws ++ (pretty level j).toList) [] a j.depth

/-- A keyword, its first letter next. -/
theorem Reads.word (c : Char) (w : List Char) : Reads (Decoder.word (c :: w)) (c :: w) [] () 0 := by
  unfold Decoder.word
  simpa using Reads.bind (Reads.read (takes_eat c)) (Reads.read (takes_expectWord w)) (by simp)

/-- A keyword and then a value made without reading. -/
theorem Reads.word_pure {α : Type} (c : Char) (w : List Char) (x : α) :
    Reads (Decoder.word (c :: w) >>= fun _ => Pure.pure x) (c :: w) [] x 0 := by
  have h := Reads.bind (f := fun _ => Pure.pure x) (Reads.word c w) (Reads.pure x []) (by simp)
  simp only [List.append_nil, max_self] at h
  exact h

theorem decodes_bool (b : Bool) : Decodes Decoder.bool (.bool b) b := by
  constructor
  intro level ws hws
  cases b with
  | true =>
    have hw : (pretty level (.bool true)).toList = 't' :: ['r', 'u', 'e'] := by simp
    rw [hw]
    exact Reads.placed (Reads.blanks_bind hws 't' rfl (Reads.word_pure 't' ['r', 'u', 'e'] true))
  | false =>
    have hw : (pretty level (.bool false)).toList = 'f' :: ['a', 'l', 's', 'e'] := by simp
    rw [hw]
    exact Reads.placed (Reads.blanks_bind hws 'f' rfl (Reads.word_pure 'f' ['a', 'l', 's', 'e'] false))

theorem Reads.of_eq {α : Type} {d : Decoder α} {cs cs' ahead : List Char} {a : α} {n n' : Nat}
    (h : Reads d cs ahead a n) (hcs : cs = cs') (hn : n = n') : Reads d cs' ahead a n' := by
  subst hcs hn
  exact h

theorem blank_space : Blank [' '] := by simp [Blank, blankChar]

theorem Reads.endMap : Reads Decoder.endMap ['}'] [] () 0 := by
  rw [Decoder.endMap]
  exact Reads.of_eq (Reads.blanks_bind blank_nil '}' rfl (Reads.read (takes_eat '}'))) (by simp) rfl

theorem Reads.endSeq : Reads Decoder.endSeq [']'] [] () 0 := by
  rw [Decoder.endSeq]
  exact Reads.of_eq (Reads.blanks_bind blank_nil ']' rfl (Reads.read (takes_eat ']'))) (by simp) rfl

/-- A step that reads nothing more after a value. -/
theorem Reads.bind_nil {α β : Type} {x : Decoder α} {f : α → Decoder β} {cs ahead : List Char}
    {a : α} {b : β} {n : Nat} (hx : Reads x cs ahead a n) (hf : Reads (f a) [] ahead b 0) :
    Reads (x >>= f) cs ahead b n :=
  Reads.of_eq (Reads.bind hx hf (by simp)) (by simp) (by simp)

/-- A value read and then handed to a function. -/
theorem Decodes.bind_pure {α β : Type} {d : Decoder α} {j : Json} {a : α} (h : Decodes d j a)
    (g : α → β) : Decodes (d >>= fun x => pure (g x)) j (g a) := by
  constructor
  intro level ws hws
  exact Reads.bind_nil (h.reads level ws hws) (Reads.pure (g a) [])

theorem Decodes.map {α β : Type} {d : Decoder α} {j : Json} {a : α} (h : Decodes d j a)
    (g : α → β) : Decodes (g <$> d) j (g a) :=
  ⟨fun level ws hws => Reads.map (h.reads level ws hws)⟩

theorem Decodes.of_eq {α : Type} {d : Decoder α} {j j' : Json} {a a' : α} (h : Decodes d j a)
    (hj : j = j') (ha : a = a') : Decodes d j' a' := by
  subst hj ha
  exact h

/-! ## Containers

The typed and the untyped readers of a container take the same step for each entry or item;
`entryStep` and `itemStep` name that step, so that what it reads is proved once. -/

/-- One step of reading the entries of a map: the next key, or the end; then the value at the
key's path and the entries after it. -/
def entryStep {α : Type} (first : Bool) (path : Path) (value : Path → Decoder α)
    (rest : Decoder (List (String × α))) : Decoder (List (String × α)) := do
  match ← within (path ++ [.unknown]) (read (nextKey first)) with
  | none => pure []
  | some k =>
    let step := path ++ [.key k]
    let v ← within step do
      read readColon
      value step
    return (k, v) :: (← rest)

/-- One step of reading the items of a list: the end, or the item at index `i`, then the items
after it. -/
def itemStep {α : Type} (i : Nat) (path : Path) (item : Path → Decoder α)
    (rest : Decoder (List α)) : Decoder (List α) := do
  let step := path ++ [.index i]
  let next ← within step do
    if ← read (nextItem (i == 0)) then some <$> item step else pure none
  match next with
  | none => pure []
  | some a => return a :: (← rest)

theorem entries_succ {α : Type} (value : Path → Decoder α) (path : Path) (fuel : Nat) (first : Bool) :
    entries value path (fuel + 1) first =
      entryStep first path value (entries value path fuel false) := rfl

theorem anyEntries_succ (path : Path) (fuel : Nat) (first : Bool) :
    anyEntries path (fuel + 1) first =
      entryStep first path (fun p => anyValue p fuel) (anyEntries path fuel false) := rfl

theorem items_succ {α : Type} (item : Path → Decoder α) (path : Path) (fuel i : Nat) :
    items item path (fuel + 1) i = itemStep i path item (items item path fuel (i + 1)) := rfl

theorem anyItems_succ (path : Path) (fuel i : Nat) :
    anyItems path (fuel + 1) i =
      itemStep i path (fun p => anyValue p fuel) (anyItems path fuel (i + 1)) := by
  rw [anyItems, itemStep]
  congr 1
  funext next
  cases next <;> rfl

section Steps

variable {α : Type} {path : Path} {value : Path → Decoder α}

/-- At the closing brace: no more entries. -/
theorem Reads.entryStep_end {ws : List Char} (hws : Blank ws) (first : Bool)
    (rest : Decoder (List (String × α))) : Reads (entryStep first path value rest) ws ['}'] [] 0 := by
  rw [entryStep]
  exact Reads.of_eq (Reads.bind (Reads.within (Reads.read (takes_nextKey_end hws first)))
    (Reads.pure [] ['}']) (by simp)) (by simp) (by simp)

/-- One entry, its separator and key, then the value, then what `rest` reads. -/
theorem Reads.entryStep_entry {first : Bool} {sep cs : List Char} {k : String} {j : Json} {v : α}
    {rest : Decoder (List (String × α))} {rs : List (String × α)} {n : Nat}
    (hkey : Takes (nextKey first) (sep ++ (quoteString k).toList) [] (some k))
    (hval : Decodes (value (path ++ [.key k])) j v) (hrest : Reads rest cs ['}'] rs n) (level : Nat) :
    Reads (entryStep first path value rest)
      (sep ++ (quoteString k).toList ++ [':', ' '] ++ (pretty level j).toList ++ cs) ['}']
      ((k, v) :: rs) (max j.depth n) := by
  rw [entryStep]
  exact Reads.of_eq (Reads.bind (Reads.within (Reads.read hkey))
    (Reads.bind (Reads.within (Reads.bind (Reads.read (takes_readColon blank_nil))
        (hval.reads level [' '] blank_space) (by simp)))
      (Reads.bind hrest (Reads.pure _ ['}']) (by simp)) (by simp)) (by simp))
    (by simp) (by simp)

variable {item : Path → Decoder α}

/-- At the closing bracket: no more items. -/
theorem Reads.itemStep_end {ws : List Char} (hws : Blank ws) (i : Nat) (rest : Decoder (List α)) :
    Reads (itemStep i path item rest) ws [']'] [] 0 := by
  rw [itemStep]
  exact Reads.of_eq (Reads.bind (Reads.within (Reads.bind (Reads.read (takes_nextItem_end hws _))
    (Reads.pure none [']']) (by simp))) (Reads.pure [] [']']) (by simp)) (by simp) (by simp)

/-- One item, after its separator, then what `rest` reads. -/
theorem Reads.itemStep_item {sep cs : List Char} (i : Nat) {j : Json} {a : α} {as : List α}
    {rest : Decoder (List α)} {n : Nat} (hj : Textual j)
    (hnext : ∀ c, blankChar c = false → c ≠ ']' → Takes (nextItem (i == 0)) sep [c] true)
    (hval : Decodes (item (path ++ [.index i])) j a) (hrest : Reads rest cs [']'] as n) (level : Nat) :
    Reads (itemStep i path item rest) (sep ++ (pretty level j).toList ++ cs) [']']
      (a :: as) (max j.depth n) := by
  obtain ⟨c, cs', hhead, hc, hne, -⟩ := pretty_head_opens hj level
  rw [itemStep]
  exact Reads.of_eq (Reads.bind (Reads.within (Reads.bind (Reads.read (hnext c hc hne))
      (Reads.map (hval.reads level [] blank_nil)) (by simp [hhead])))
    (Reads.bind hrest (Reads.pure _ [']']) (by simp)) (by simp)) (by simp) (by simp)

end Steps

/-- The separator before a later entry or item: a comma, a line break and the indentation. -/
theorem takes_nextItem_sep (level : Nat) {i : Nat} {c : Char} (hc : blankChar c = false) (hne : c ≠ ']') :
    Takes (nextItem (i + 1 == 0)) (',' :: '\n' :: (indent level).toList) [c] true := by
  simpa using takes_nextItem_later blank_nil (blank_newline_indent level) hc hne

section Typed

variable {α β : Type} {path : Path} {key : β → String} {json : β → Json} {val : β → α}

/-- The entries of a map after the first, up to the blanks before the closing brace. -/
theorem Reads.entries_later {value : Path → Decoder α} {ws : List Char} (hws : Blank ws)
    (level : Nat) : ∀ {xs : List β}, (∀ x ∈ xs, ∀ p, Decodes (value p) (json x) (val x)) →
      ∀ {fuel : Nat}, xs.length < fuel →
      Reads (entries value path fuel false)
        (xs.flatMap (fun x => ',' :: '\n' :: entryChars level (key x, json x)) ++ ws) ['}']
        (xs.map fun x => (key x, val x)) (depthEntries (xs.map fun x => (key x, json x)))
  | [], _, fuel + 1, _ => by
    rw [entries_succ]
    exact Reads.of_eq (Reads.entryStep_end hws false _) (by simp) (by simp [depthEntries])
  | x :: xs, hv, fuel + 1, hfuel => by
    rw [entries_succ]
    exact Reads.of_eq (Reads.entryStep_entry
      (takes_nextKey_later blank_nil (blank_newline_indent level) (key x)) (hv x (by simp) _)
      (Reads.entries_later hws level (fun y (hy : y ∈ xs) => hv y (by simp [hy]))
        (show xs.length < fuel by simp at hfuel; omega)) level)
      (by simp [entryChars]) (by simp [depthEntries])

/-- A map written by the pretty writer, each value read by `value` at its path, reads back as
its entries in order, repeated keys included. -/
theorem decodes_map {value : Path → Decoder α} (expected : String) (key : β → String) {xs : List β}
    (hv : ∀ x ∈ xs, ∀ p, Decodes (value p) (json x) (val x)) {fuel : Nat} (hfuel : xs.length < fuel) :
    Decodes (Decoder.map expected value fuel path) (.object (xs.map fun x => (key x, json x)))
      (xs.map fun x => (key x, val x)) := by
  constructor
  intro level ws hws
  obtain ⟨f, rfl⟩ : ∃ f, fuel = f + 1 := ⟨fuel - 1, by omega⟩
  rw [Decoder.map, entries_succ]
  cases xs with
  | nil =>
    exact Reads.of_eq (Reads.placed (Reads.blanks_bind hws '{' rfl
      (Reads.container (Reads.entryStep_end blank_nil true _) Reads.endMap (by simp) '{')))
      (by simp) (by simp [depth, depthEntries])
  | cons x xs =>
    exact Reads.of_eq (Reads.placed (Reads.blanks_bind hws '{' rfl
      (Reads.container (Reads.entryStep_entry
        (takes_nextKey_first (blank_newline_indent (level + 1)) (key x)) (hv x (by simp) _)
        (Reads.entries_later (blank_newline_indent level) (level + 1)
          (fun y (hy : y ∈ xs) => hv y (by simp [hy])) (show xs.length < f by simp at hfuel; omega))
        (level + 1)) Reads.endMap (by simp) '{')))
      (by simp [toList_pretty_object, entryChars, List.flatMap_map]) (by simp [depth, depthEntries])

/-- The items of a list after the first, up to the blanks before the closing bracket. -/
theorem Reads.items_later {item : Path → Decoder α} {ws : List Char} (hws : Blank ws) (level : Nat) :
    ∀ {xs : List β}, (∀ x ∈ xs, Textual (json x)) →
      (∀ x ∈ xs, ∀ p, Decodes (item p) (json x) (val x)) →
      ∀ {fuel i : Nat}, xs.length < fuel →
      Reads (items item path fuel (i + 1))
        (xs.flatMap (fun x => ',' :: '\n' :: itemChars level (json x)) ++ ws) [']']
        (xs.map val) (depthList (xs.map json))
  | [], _, _, fuel + 1, i, _ => by
    rw [items_succ]
    exact Reads.of_eq (Reads.itemStep_end hws (i + 1) _) (by simp) (by simp [depthList])
  | x :: xs, ht, hv, fuel + 1, i, hfuel => by
    rw [items_succ]
    exact Reads.of_eq (Reads.itemStep_item (i + 1) (ht x (by simp))
      (fun c hc hne => takes_nextItem_sep level hc hne)
      (hv x (by simp) _)
      (Reads.items_later hws level (fun y (hy : y ∈ xs) => ht y (by simp [hy]))
        (fun y (hy : y ∈ xs) => hv y (by simp [hy])) (show xs.length < fuel by simp at hfuel; omega))
      level)
      (by simp [itemChars]) (by simp [depthList])

/-- A list written by the pretty writer, each item read by `item` at its path, reads back as
its items in order. -/
theorem decodes_seq {item : Path → Decoder α} (expected : String) {xs : List β}
    (ht : ∀ x ∈ xs, Textual (json x)) (hv : ∀ x ∈ xs, ∀ p, Decodes (item p) (json x) (val x))
    {fuel : Nat} (hfuel : xs.length < fuel) :
    Decodes (Decoder.seq expected item fuel path) (.array (xs.map json)) (xs.map val) := by
  constructor
  intro level ws hws
  obtain ⟨f, rfl⟩ : ∃ f, fuel = f + 1 := ⟨fuel - 1, by omega⟩
  rw [Decoder.seq, items_succ]
  cases xs with
  | nil =>
    exact Reads.of_eq (Reads.placed (Reads.blanks_bind hws '[' rfl
      (Reads.container (Reads.itemStep_end blank_nil 0 _) Reads.endSeq (by simp) '[')))
      (by simp) (by simp [depth, depthList])
  | cons x xs =>
    exact Reads.of_eq (Reads.placed (Reads.blanks_bind hws '[' rfl
      (Reads.container (Reads.itemStep_item 0 (ht x (by simp))
        (fun c hc hne => takes_nextItem_first (blank_newline_indent (level + 1)) hc hne)
        (hv x (by simp) _)
        (Reads.items_later (blank_newline_indent level) (level + 1)
          (fun y (hy : y ∈ xs) => ht y (by simp [hy])) (fun y (hy : y ∈ xs) => hv y (by simp [hy]))
          (show xs.length < f by simp at hfuel; omega)) (level + 1)) Reads.endSeq (by simp) '[')))
      (by simp [toList_pretty_array, itemChars, List.flatMap_map]) (by simp [depth, depthList])

end Typed

/-- A present value of an optional field reads as itself. -/
theorem decodes_optional {α : Type} {inner : Decoder α} {j : Json} {a : α} (hj : Textual j)
    (hnull : j ≠ .null) (h : Decodes inner j a) : Decodes (optional inner) j (some a) := by
  constructor
  intro level ws hws
  obtain ⟨c, cs, hhead, hc, hn⟩ := pretty_head hj level
  have hopens : blankChar c = false := by
    simp only [List.mem_cons, List.not_mem_nil, or_false] at hc
    rcases hc with rfl | rfl | rfl | rfl | rfl | rfl <;> rfl
  have hinner := h.reads level [] blank_nil
  rw [List.nil_append, hhead] at hinner
  rw [hhead]
  unfold Decoder.optional
  refine Reads.blanks_bind hws c hopens ?_
  split
  · rename_i heq
    exact absurd (hn (Option.some.inj heq)) hnull
  · exact Reads.map hinner

/-! ## Any value -/

theorem weight_pos (j : Json) : 0 < j.weight := by
  cases j <;> simp [weight]

theorem length_le_weightList (items : List Json) : items.length ≤ weightList items := by
  induction items with
  | nil => simp [weightList]
  | cons j rest ih => have := weight_pos j; simp [weightList]; omega

theorem length_le_weightEntries (es : List (String × Json)) : es.length ≤ weightEntries es := by
  induction es with
  | nil => simp [weightEntries]
  | cons e rest ih => have := weight_pos e.2; simp [weightEntries]; omega

theorem weight_le_weightList {items : List Json} {j : Json} (h : j ∈ items) :
    j.weight ≤ weightList items := by
  induction items with
  | nil => simp at h
  | cons x rest ih =>
    rcases List.mem_cons.1 h with rfl | h
    · simp [weightList]
    · have := ih h; simp [weightList]; omega

theorem weight_le_weightEntries {es : List (String × Json)} {e : String × Json} (h : e ∈ es) :
    e.2.weight ≤ weightEntries es := by
  induction es with
  | nil => simp at h
  | cons x rest ih =>
    rcases List.mem_cons.1 h with rfl | h
    · simp [weightEntries]
    · have := ih h; simp [weightEntries]; omega

theorem weightList_le_length_flatMap {items : List Json} {f : Json → List Char}
    (h : ∀ j ∈ items, j.weight ≤ (f j).length) : weightList items ≤ (items.flatMap f).length := by
  induction items with
  | nil => simp [weightList]
  | cons j rest ih =>
    have hj := h j (by simp)
    have hrest := ih fun x hx => h x (by simp [hx])
    simp only [weightList, List.flatMap_cons, List.length_append]
    omega

theorem weightEntries_le_length_flatMap {es : List (String × Json)} {f : String × Json → List Char}
    (h : ∀ e ∈ es, e.2.weight ≤ (f e).length) : weightEntries es ≤ (es.flatMap f).length := by
  induction es with
  | nil => simp [weightEntries]
  | cons e rest ih =>
    have he := h e (by simp)
    have hrest := ih fun x hx => h x (by simp [hx])
    simp only [weightEntries, List.flatMap_cons, List.length_append]
    omega

/-- A value has no more parts than its pretty text has characters, so fuel counted in
characters covers any count of values. -/
theorem weight_le_length {j : Json} (hj : Textual j) (level : Nat) :
    j.weight ≤ (pretty level j).toList.length := by
  induction hj generalizing level with
  | null => simp [weight, pretty, scalarText]
  | bool b => cases b <;> simp [weight, pretty, scalarText]
  | string s => simp [weight, pretty, scalarText, quoteString]
  | @array items _ ih =>
    cases items with
    | nil => simp [weight, weightList]
    | cons j rest =>
      have hj : j.weight ≤ (itemChars (level + 1) j).length :=
        (ih j (by simp) (level + 1)).trans (by simp [itemChars])
      have hrest : weightList rest ≤
          (rest.flatMap fun x => ',' :: '\n' :: itemChars (level + 1) x).length :=
        weightList_le_length_flatMap fun x hx =>
          (ih x (by simp [hx]) (level + 1)).trans (by simp [itemChars]; omega)
      rw [toList_pretty_array]
      simp only [weight, weightList, List.length_cons, List.length_append]
      omega
  | @object es _ ih =>
    cases es with
    | nil => simp [weight, weightEntries]
    | cons e rest =>
      have he : e.2.weight ≤ (entryChars (level + 1) e).length :=
        (ih e (by simp) (level + 1)).trans (by simp [entryChars]; omega)
      have hrest : weightEntries rest ≤
          (rest.flatMap fun x => ',' :: '\n' :: entryChars (level + 1) x).length :=
        weightEntries_le_length_flatMap fun x hx =>
          (ih x (by simp [hx]) (level + 1)).trans (by simp [entryChars]; omega)
      rw [toList_pretty_object]
      simp only [weight, weightEntries, List.length_cons, List.length_append]
      omega

section Untyped

variable {path : Path}

/-- The items of a list after the first, each read as any value with the fuel left. -/
theorem Reads.anyItems_later {ws : List Char} (hws : Blank ws) (level : Nat) :
    ∀ {items : List Json}, (∀ j ∈ items, Textual j) →
      (∀ j ∈ items, ∀ p fuel, 2 * j.weight ≤ fuel → Decodes (anyValue p fuel) j j) →
      ∀ {fuel i : Nat}, 2 * weightList items < fuel →
      Reads (anyItems path fuel (i + 1))
        (items.flatMap (fun j => ',' :: '\n' :: itemChars level j) ++ ws) [']'] items (depthList items)
  | [], _, _, fuel + 1, i, _ => by
    rw [anyItems_succ]
    exact Reads.of_eq (Reads.itemStep_end hws (i + 1) _) (by simp) (by simp [depthList])
  | j :: items, ht, hv, fuel + 1, i, hfuel => by
    have hw := weight_pos j
    simp only [weightList] at hfuel
    rw [anyItems_succ]
    exact Reads.of_eq (Reads.itemStep_item (i + 1) (ht j (by simp))
      (fun c hc hne => takes_nextItem_sep level hc hne) (hv j (by simp) _ fuel (by omega))
      (Reads.anyItems_later hws level (fun y (hy : y ∈ items) => ht y (by simp [hy]))
        (fun y (hy : y ∈ items) => hv y (by simp [hy])) (show 2 * weightList items < fuel by omega))
      level)
      (by simp [itemChars]) (by simp [depthList])

/-- The entries of a map after the first, each value read as any value with the fuel left. -/
theorem Reads.anyEntries_later {ws : List Char} (hws : Blank ws) (level : Nat) :
    ∀ {es : List (String × Json)}, (∀ e ∈ es, ∀ p fuel, 2 * e.2.weight ≤ fuel →
        Decodes (anyValue p fuel) e.2 e.2) →
      ∀ {fuel : Nat}, 2 * weightEntries es < fuel →
      Reads (anyEntries path fuel false)
        (es.flatMap (fun e => ',' :: '\n' :: entryChars level e) ++ ws) ['}'] es (depthEntries es)
  | [], _, fuel + 1, _ => by
    rw [anyEntries_succ]
    exact Reads.of_eq (Reads.entryStep_end hws false _) (by simp) (by simp [depthEntries])
  | (k, j) :: es, hv, fuel + 1, hfuel => by
    have hw := weight_pos j
    simp only [weightEntries] at hfuel
    rw [anyEntries_succ]
    exact Reads.of_eq (Reads.entryStep_entry
      (takes_nextKey_later blank_nil (blank_newline_indent level) k) (hv (k, j) (by simp) _ fuel (by dsimp only; omega))
      (Reads.anyEntries_later hws level (fun y (hy : y ∈ es) => hv y (by simp [hy]))
        (show 2 * weightEntries es < fuel by omega)) level)
      (by simp [entryChars]) (by simp [depthEntries])

/-- A value without numbers, written by the pretty writer, reads back as itself, given fuel for
twice its weight. -/
theorem decodes_anyValue {j : Json} (hj : Textual j) :
    ∀ path fuel, 2 * j.weight ≤ fuel → Decodes (anyValue path fuel) j j := by
  induction hj with
  | null =>
    intro path fuel hfuel
    obtain ⟨f, rfl⟩ : ∃ f, fuel = f + 1 := ⟨fuel - 1, by simp [weight] at hfuel; omega⟩
    constructor
    intro level ws hws
    rw [anyValue]
    exact Reads.of_eq (Reads.placed (Reads.blanks_bind hws 'n' rfl
      (Reads.bind (Reads.word 'n' ['u', 'l', 'l']) (Reads.pure Json.null []) (by simp))))
      (by simp) (by simp [depth])
  | bool b =>
    intro path fuel hfuel
    obtain ⟨f, rfl⟩ : ∃ f, fuel = f + 1 := ⟨fuel - 1, by simp [weight] at hfuel; omega⟩
    constructor
    intro level ws hws
    rw [anyValue]
    cases b with
    | true =>
      exact Reads.of_eq (Reads.placed (Reads.blanks_bind hws 't' rfl
        (Reads.bind (Reads.word 't' ['r', 'u', 'e']) (Reads.pure (Json.bool true) []) (by simp))))
        (by simp) (by simp [depth])
    | false =>
      exact Reads.of_eq (Reads.placed (Reads.blanks_bind hws 'f' rfl
        (Reads.bind (Reads.word 'f' ['a', 'l', 's', 'e']) (Reads.pure (Json.bool false) []) (by simp))))
        (by simp) (by simp [depth])
  | string s =>
    intro path fuel hfuel
    obtain ⟨f, rfl⟩ : ∃ f, fuel = f + 1 := ⟨fuel - 1, by simp [weight] at hfuel; omega⟩
    constructor
    intro level ws hws
    rw [anyValue]
    exact Reads.of_eq (Reads.placed (Reads.blanks_bind hws '"' rfl
      (Reads.bind (Reads.read (takes_eat '"')) (Reads.bind (Reads.read (takes_readString s))
        (Reads.pure (Json.string s) []) (by simp)) (by simp))))
      (by simp) (by simp [depth])
  | @array items ht ih =>
    intro path fuel hfuel
    obtain ⟨f, rfl⟩ : ∃ f, fuel = f + 1 := ⟨fuel - 1, by simp [weight] at hfuel; omega⟩
    simp only [weight] at hfuel
    constructor
    intro level ws hws
    rw [anyValue]
    obtain ⟨g, rfl⟩ : ∃ g, f = g + 1 := ⟨f - 1, by omega⟩
    rw [anyItems_succ]
    cases items with
    | nil =>
      exact Reads.of_eq (Reads.placed (Reads.blanks_bind hws '[' rfl
        (Reads.bind (Reads.container (Reads.itemStep_end blank_nil 0 _) Reads.endSeq (by simp) '[')
          (Reads.pure (Json.array []) []) (by simp))))
        (by simp) (by simp [depth, depthList])
    | cons j items =>
      have hw := weight_pos j
      simp only [weightList] at hfuel
      exact Reads.of_eq (Reads.placed (Reads.blanks_bind hws '[' rfl
        (Reads.bind (Reads.container (Reads.itemStep_item 0 (ht j (by simp))
          (fun c hc hne => takes_nextItem_first (blank_newline_indent (level + 1)) hc hne)
          (ih j (by simp) _ g (by omega))
          (Reads.anyItems_later (blank_newline_indent level) (level + 1)
            (fun y (hy : y ∈ items) => ht y (by simp [hy])) (fun y (hy : y ∈ items) => ih y (by simp [hy]))
            (show 2 * weightList items < g by omega)) (level + 1)) Reads.endSeq (by simp) '[')
          (Reads.pure (Json.array (j :: items)) []) (by simp))))
        (by simp [toList_pretty_array, itemChars]) (by simp [depth, depthList])
  | @object entries _ ih =>
    intro path fuel hfuel
    obtain ⟨f, rfl⟩ : ∃ f, fuel = f + 1 := ⟨fuel - 1, by simp [weight] at hfuel; omega⟩
    simp only [weight] at hfuel
    constructor
    intro level ws hws
    rw [anyValue]
    obtain ⟨g, rfl⟩ : ∃ g, f = g + 1 := ⟨f - 1, by omega⟩
    rw [anyEntries_succ]
    cases entries with
    | nil =>
      exact Reads.of_eq (Reads.placed (Reads.blanks_bind hws '{' rfl
        (Reads.bind (Reads.container (Reads.entryStep_end blank_nil true _) Reads.endMap (by simp) '{')
          (Reads.pure (Json.object []) []) (by simp))))
        (by simp) (by simp [depth, depthEntries])
    | cons e es =>
      obtain ⟨k, j⟩ := e
      have hw := weight_pos j
      simp only [weightEntries] at hfuel
      exact Reads.of_eq (Reads.placed (Reads.blanks_bind hws '{' rfl
        (Reads.bind (Reads.container (Reads.entryStep_entry
          (takes_nextKey_first (blank_newline_indent (level + 1)) k) (ih (k, j) (by simp) _ g (by dsimp only; omega))
          (Reads.anyEntries_later (blank_newline_indent level) (level + 1)
            (fun y (hy : y ∈ es) => ih y (by simp [hy])) (show 2 * weightEntries es < g by omega))
          (level + 1)) Reads.endMap (by simp) '{')
          (Reads.pure (Json.object ((k, j) :: es)) []) (by simp))))
        (by simp [toList_pretty_object, entryChars]) (by simp [depth, depthEntries])

end Untyped

/-! ## Records -/

namespace Record

variable {σ α : Type}

/-- What a record does with a key it has read: read the field it names into the builder, or
skip the value of a key it does not know, then go on with `rest`. -/
def keyStep (r : Record σ α) (path : Path) (fuel : Nat) (s : σ) (k : String)
    (rest : σ → Decoder σ) : Decoder σ :=
  let step := path ++ [.key k]
  match r.names.findIdx? (· == k) with
  | some i =>
    if r.filled s i then mismatch (.duplicateField k)
    else do
      let s ← within step do
        read readColon
        r.field i step s
      rest s
  | none => do
    within step do
      read readColon
      skipValue fuel
    rest s

/-- One step of reading a record's fields from a map: the next key, or the end. -/
def entryStep (r : Record σ α) (path : Path) (fuel : Nat) (first : Bool) (s : σ)
    (rest : σ → Decoder σ) : Decoder σ := do
  match ← within (path ++ [.unknown]) (read (nextKey first)) with
  | none => pure s
  | some k => r.keyStep path fuel s k rest

theorem fromEntries_succ (r : Record σ α) (path : Path) (fuel : Nat) (first : Bool) (s : σ) :
    r.fromEntries path (fuel + 1) first s =
      r.entryStep path fuel first s (r.fromEntries path fuel false) := rfl

theorem keyStep_field {r : Record σ α} {path : Path} {fuel : Nat} {s : σ} {k : String}
    {rest : σ → Decoder σ} {i : Nat} (hidx : r.names.findIdx? (· == k) = some i)
    (hfilled : r.filled s i = false) :
    r.keyStep path fuel s k rest =
      within (path ++ [.key k]) (read readColon >>= fun _ => r.field i (path ++ [.key k]) s) >>=
        rest := by
  simp only [keyStep, hidx, hfilled, Bool.false_eq_true, if_false]

theorem finish_ok {r : Record σ α} {s : σ} {a : α} (h : r.build s = .ok a) : r.finish s = pure a := by
  simp only [finish, h]

/-- The fields a record reads from the entries of a map, one after the other, starting from
the builder `s` and ending with `s'`: each key names a field not read yet, whose decoder reads
the value. -/
inductive Fills (r : Record σ α) : σ → List (String × Json) → σ → Prop
  | nil (s : σ) : Fills r s [] s
  | cons {s s' s'' : σ} {k : String} {j : Json} {es : List (String × Json)} {i : Nat} :
      r.names.findIdx? (· == k) = some i → r.filled s i = false →
      (∀ p, Decodes (r.field i p s) j s') → Fills r s' es s'' → Fills r s ((k, j) :: es) s''

end Record

section Records

variable {σ α : Type} {r : Record σ α} {path : Path}

/-- At the closing brace: the builder as it stands. -/
theorem Reads.recordStep_end {ws : List Char} (hws : Blank ws) (fuel : Nat) (first : Bool) (s : σ)
    (rest : σ → Decoder σ) : Reads (r.entryStep path fuel first s rest) ws ['}'] s 0 := by
  rw [Record.entryStep]
  exact Reads.of_eq (Reads.bind (Reads.within (Reads.read (takes_nextKey_end hws first)))
    (Reads.pure s ['}']) (by simp)) (by simp) (by simp)

/-- One field, its separator and key, then its value, then what `rest` reads. -/
theorem Reads.recordStep_field {fuel : Nat} {first : Bool} {s s' s'' : σ} {sep cs : List Char}
    {k : String} {j : Json} {i n : Nat} {rest : σ → Decoder σ}
    (hkey : Takes (nextKey first) (sep ++ (quoteString k).toList) [] (some k))
    (hidx : r.names.findIdx? (· == k) = some i) (hfilled : r.filled s i = false)
    (hval : Decodes (r.field i (path ++ [.key k]) s) j s') (hrest : Reads (rest s') cs ['}'] s'' n)
    (level : Nat) :
    Reads (r.entryStep path fuel first s rest)
      (sep ++ (quoteString k).toList ++ [':', ' '] ++ (pretty level j).toList ++ cs) ['}'] s''
      (max j.depth n) := by
  rw [Record.entryStep]
  have hstep : Reads (r.keyStep path fuel s k rest)
      ((([] ++ [':']) ++ ([' '] ++ (pretty level j).toList)) ++ cs) ['}'] s''
      (max (max 0 j.depth) n) := by
    rw [Record.keyStep_field hidx hfilled]
    exact Reads.bind (Reads.within (Reads.bind (Reads.read (takes_readColon blank_nil))
      (hval.reads level [' '] blank_space) (by simp))) hrest (by simp)
  exact Reads.of_eq (Reads.bind (Reads.within (Reads.read hkey)) hstep (by simp)) (by simp) (by simp)

/-- The fields of a record after the first, up to the blanks before the closing brace. -/
theorem Reads.record_later {ws : List Char} (hws : Blank ws) (level : Nat) {s s' : σ}
    {es : List (String × Json)} (h : r.Fills s es s') :
    ∀ {fuel : Nat}, es.length < fuel →
      Reads (r.fromEntries path fuel false s)
        (es.flatMap (fun e => ',' :: '\n' :: entryChars level e) ++ ws) ['}'] s' (depthEntries es) := by
  induction h with
  | nil s =>
    intro fuel hfuel
    obtain ⟨f, rfl⟩ : ∃ f, fuel = f + 1 := ⟨fuel - 1, by omega⟩
    rw [Record.fromEntries_succ]
    exact Reads.of_eq (Reads.recordStep_end hws f false s _) (by simp) (by simp [depthEntries])
  | @cons s₁ s₂ s₃ k j es i hidx hfilled hval _ ih =>
    intro fuel hfuel
    obtain ⟨f, rfl⟩ : ∃ f, fuel = f + 1 := ⟨fuel - 1, by omega⟩
    rw [Record.fromEntries_succ]
    exact Reads.of_eq (Reads.recordStep_field
      (takes_nextKey_later blank_nil (blank_newline_indent level) k) hidx hfilled (hval _)
      (ih (show es.length < f by simp at hfuel; omega)) level)
      (by simp [entryChars]) (by simp [depthEntries])

/-- A record written by the pretty writer as a map of its fields reads back as the value its
builder makes of them. -/
theorem decodes_record {es : List (String × Json)} {s : σ} {a : α} (hfills : r.Fills r.empty es s)
    (hbuild : r.build s = .ok a) {fuel : Nat} (hfuel : es.length < fuel) :
    Decodes (r.decode fuel path) (.object es) a := by
  constructor
  intro level ws hws
  obtain ⟨f, rfl⟩ : ∃ f, fuel = f + 1 := ⟨fuel - 1, by omega⟩
  have hfinish : Reads (r.finish s) [] ['}'] a 0 := by
    rw [Record.finish_ok hbuild]
    exact Reads.pure a ['}']
  rw [Record.decode, Record.fromEntries_succ]
  cases hfills with
  | nil =>
    exact Reads.of_eq (Reads.placed (Reads.blanks_bind hws '{' rfl
      (Reads.container (Reads.bind (Reads.recordStep_end blank_nil f true r.empty _) hfinish (by simp))
        Reads.endMap (by simp) '{')))
      (by simp) (by simp [depth, depthEntries])
  | @cons _ s₁ _ k j es i hidx hfilled hval hrest =>
    exact Reads.of_eq (Reads.placed (Reads.blanks_bind hws '{' rfl
      (Reads.container (Reads.bind (Reads.recordStep_field
        (takes_nextKey_first (blank_newline_indent (level + 1)) k) hidx hfilled (hval _)
        (Reads.record_later (blank_newline_indent level) (level + 1) hrest
          (show es.length < f by simp at hfuel; omega)) (level + 1)) hfinish (by simp))
        Reads.endMap (by simp) '{')))
      (by simp [toList_pretty_object, entryChars]) (by simp [depth, depthEntries])

end Records

/-! ## Variants -/

/-- A string handed to a check that accepts it. -/
theorem decodes_textWith {α : Type} (expected : String) {accept : String → Except Problem α}
    {s : String} {a : α} (h : accept s = .ok a) :
    Decodes (textWith expected accept) (.string s) a := by
  constructor
  intro level ws hws
  rw [toList_pretty_string, textWith]
  refine Reads.placed (Reads.blanks_bind hws '"' rfl (Reads.of_eq (Reads.bind (Reads.read (takes_eat '"'))
    (Reads.bind_nil (Reads.read (takes_readString s)) ?_) (by simp)) (by simp) (by simp [depth])))
  rw [h]
  exact Reads.pure a []

theorem decodes_text (s : String) : Decodes text (.string s) s :=
  decodes_textWith "a string" rfl

/-- A bracket opened by hand: `enter`, two steps, `leave`, then what ends the bracket. The
two steps run with one level of room less. -/
theorem Reads.bracket {β γ δ : Type} {M : Decoder β} {N : β → Decoder γ} {after : γ → Decoder δ}
    {cs₁ cs₂ cs₃ : List Char} {v : β} {a : γ} {b : δ} {n₁ n₂ : Nat}
    (hM : Reads M cs₁ [] v n₁) (hN : Reads (N v) cs₂ [] a n₂) (hafter : Reads (after a) cs₃ [] b 0)
    (o : Char) :
    Reads (Decoder.enter >>= fun _ => M >>= fun v => N v >>= fun a => Decoder.leave >>= fun _ => after a)
      (o :: (cs₁ ++ cs₂ ++ cs₃)) [] b (max n₁ n₂ + 1) := by
  constructor
  · intro rest pos depth hd
    obtain ⟨p₁, h₁⟩ := hM.ok (cs₂ ++ cs₃ ++ rest) (pos.after o) (depth - 1) (by omega)
    obtain ⟨p₂, h₂⟩ := hN.ok (cs₃ ++ rest) p₁ (depth - 1) (by omega)
    obtain ⟨p₃, h₃⟩ := hafter.ok rest p₂ depth (by omega)
    simp only [List.append_nil, List.nil_append, List.append_assoc] at h₁ h₂ h₃
    have hen : 1 < depth := by omega
    have hdepth : depth - 1 + 1 = depth := by omega
    refine ⟨p₃, ?_⟩
    simp only [List.append_nil, List.nil_append, List.cons_append, List.append_assoc]
    rw [run_bind_ok (run_enter_ok hen o _ pos), run_bind_ok h₁, run_bind_ok h₂,
      run_bind_ok (run_leave _ _), hdepth, h₃]
  · intro rest pos depth hpos hd
    by_cases h1 : depth ≤ 1
    · obtain ⟨e, s, he⟩ := run_enter_error h1 ⟨o :: (cs₁ ++ cs₂ ++ cs₃) ++ [] ++ rest, pos⟩
      exact ⟨e, s, by rw [run_bind_error he]⟩
    · have hen : 1 < depth := by omega
      by_cases hn : depth - 1 ≤ n₁
      · obtain ⟨e, s, h₁⟩ := hM.fails (cs₂ ++ cs₃ ++ rest) (pos.after o) (depth - 1) (by omega) hn
        simp only [List.append_nil, List.append_assoc] at h₁
        refine ⟨e, s, ?_⟩
        simp only [List.append_nil, List.cons_append, List.append_assoc]
        rw [run_bind_ok (run_enter_ok hen o _ pos), run_bind_error h₁]
      · obtain ⟨p₁, h₁⟩ := hM.ok (cs₂ ++ cs₃ ++ rest) (pos.after o) (depth - 1) (by omega)
        obtain ⟨e, s, h₂⟩ := hN.fails (cs₃ ++ rest) p₁ (depth - 1) (by omega) (by omega)
        simp only [List.append_nil, List.nil_append, List.append_assoc] at h₁ h₂
        refine ⟨e, s, ?_⟩
        simp only [List.append_nil, List.cons_append, List.append_assoc]
        rw [run_bind_ok (run_enter_ok hen o _ pos), run_bind_ok h₁, run_bind_error h₂]

/-- A variant written as a map of one entry, from a variant name the type has to its payload,
reads back as what the payload's decoder makes of it. -/
theorem decodes_tagged {α : Type} {variants : List String} {payload : String → Payload → Path → Decoder α}
    {path : Path} {kind : String} {body : Json} {a : α} (hk : variants.contains kind = true)
    (hpay : Decodes (payload kind .given (path ++ [.key kind])) body a) :
    Decodes (tagged variants payload path) (.object [(kind, body)]) a := by
  constructor
  intro level ws hws
  have hidentify := (@decodes_textWith _ "variant identifier"
    (fun s => if variants.contains s then .ok s else .error (.unknownVariant s variants))
    kind kind (if_pos hk)).reads 0 ('\n' :: (indent (level + 1)).toList) (blank_newline_indent _)
  have htext : ws ++ (pretty level (.object [(kind, body)])).toList =
      ws ++ '{' :: (('\n' :: (indent (level + 1)).toList ++ (pretty 0 (.string kind)).toList ++
        ([':'] ++ [])) ++ ([' '] ++ (pretty (level + 1) body).toList) ++
        ('\n' :: (indent level).toList ++ (['}'] ++ []))) := by
    simp [toList_pretty_object, entryChars, toList_quoteString]
  have hdepth : (Json.object [(kind, body)]).depth =
      max (max (Json.string kind).depth (max 0 0)) body.depth + 1 := by
    simp [depth, depthEntries]
  rw [htext, hdepth, tagged]
  refine Reads.blanks_bind hws '{' rfl ?_
  show Reads (Decoder.enter >>= _) _ _ _ _
  refine Reads.bracket (v := kind) (a := a) ?_ ?_ ?_ '{'
  · exact Reads.within (Reads.bind hidentify (Reads.bind (Reads.read (takes_readColon blank_nil))
      (Reads.pure kind []) (by simp)) (by simp))
  · exact Reads.within (hpay.reads (level + 1) [' '] blank_space)
  · exact Reads.blanks_bind (blank_newline_indent level) '}' rfl
      (Reads.bind (Reads.read (takes_eat '}')) (Reads.pure a []) (by simp))

end Ipld.Json
