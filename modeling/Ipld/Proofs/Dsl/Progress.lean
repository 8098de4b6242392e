import Mathlib
import Ipld.Proofs.Dsl.Lossless
import Ipld.Schema.Dsl.Read

/-!
# Reading schema tokens never runs out of steps

The reader gives each loop, and the nesting of types written in place, one step more than
there are tokens left, and fails with `exhausted` when a budget is spent. That never happens:
reading a stream that ends with the end of input, and so reading any text, ends with a
document or a fault of the text (`reading_never_runs_out`).

A reader *keeps* a stream when it never runs out and leaves at most as many tokens
(`Reader.Keeps`), and *takes* a token when a success leaves fewer (`Reader.Takes`); the
bounded forms compose along `>>=`. Every round of every loop and every level of a nested type
takes a token, so by induction on the budget each loop keeps the stream within it.
-/

namespace Ipld.Schema.Dsl

open Ipld.Schema

namespace TokenStream

@[simp] theorem size_advance (s : TokenStream) : s.advance.size = s.size - 1 := by
  simp [advance, size]

@[simp] theorem eof_advance (s : TokenStream) : s.advance.eof = s.eof := rfl

/-- Past the last token only the end of input is seen, so a token of another kind is a real
one and taking it shortens the stream. -/
theorem size_advance_lt {s : TokenStream} (hs : s.eof.kind = .eof) (hk : s.peek.kind ≠ .eof) :
    s.advance.size < s.size := by
  cases h : s.tokens with
  | nil => simp [peek, h, hs] at hk
  | cons t ts => simp [size, advance, h]

end TokenStream

/-! ## Outcomes of a reader -/

/-- The outcome of a reader on `s` settles within `fits`: a fault that is not for want of
steps, or a value and a rest that keeps the end of input and whose size `fits`. -/
def Settles {α : Type} (fits : Nat → Prop) (s : TokenStream) :
    Except Fault (α × TokenStream) → Prop
  | .ok (_, s') => s'.eof = s.eof ∧ fits s'.size
  | .error f => f.problem ≠ .exhausted

@[simp] theorem settles_ok {α : Type} {fits : Nat → Prop} {s s' : TokenStream} {a : α} :
    Settles fits s (.ok (a, s')) ↔ s'.eof = s.eof ∧ fits s'.size := Iff.rfl

@[simp] theorem settles_error {α : Type} {fits : Nat → Prop} {s : TokenStream} {f : Fault} :
    Settles (α := α) fits s (.error f) ↔ f.problem ≠ .exhausted := Iff.rfl

theorem Settles.mono {α : Type} {fits fits' : Nat → Prop} {s : TokenStream}
    {o : Except Fault (α × TokenStream)} (h : Settles fits s o) (hfits : ∀ k, fits k → fits' k) :
    Settles fits' s o := by
  rcases o with f | ⟨a, s'⟩
  · exact h
  · exact ⟨h.1, hfits _ h.2⟩

namespace Reader

theorem get_bind {α : Type} (f : TokenStream → Reader α) (s : TokenStream) :
    (get >>= f) s = f s s := rfl

theorem set_bind {α : Type} (s' : TokenStream) (f : PUnit → Reader α) (s : TokenStream) :
    (set s' >>= f) s = f ⟨⟩ s' := rfl

theorem fail_bind {α β : Type} (p : Problem) (t : Token) (f : α → Reader β) (s : TokenStream) :
    (fail p t >>= f) s = .error (Fault.at p t) := rfl

theorem peek_bind {α : Type} (f : Token → Reader α) (s : TokenStream) :
    (peek >>= f) s = f s.peek s := rfl

theorem bind_of_ok {α β : Type} {x : Reader α} {s s' : TokenStream} {a : α}
    (h : x s = .ok (a, s')) (f : α → Reader β) : (x >>= f) s = f a s' := by
  simp [bind, StateT.bind, h, Except.bind]

theorem bind_of_error {α β : Type} {x : Reader α} {s : TokenStream} {e : Fault}
    (h : x s = .error e) (f : α → Reader β) : (x >>= f) s = .error e := by
  simp [bind, StateT.bind, h, Except.bind]

end Reader

/-- Outcomes compose along `>>=`: the second reader starts where the first left off, with the
same end of input. -/
theorem settles_bind {α β : Type} {x : Reader α} {f : α → Reader β} {s : TokenStream}
    {fits fits' : Nat → Prop} (hx : Settles fits s (x s))
    (hf : ∀ a s', s'.eof = s.eof → fits s'.size → Settles fits' s' (f a s')) :
    Settles fits' s ((x >>= f) s) := by
  cases hxs : x s with
  | error e =>
    rw [Reader.bind_of_error hxs]
    simpa [hxs] using hx
  | ok p =>
    obtain ⟨a, s'⟩ := p
    rw [Reader.bind_of_ok hxs]
    rw [hxs, settles_ok] at hx
    have h := hf a s' hx.1 hx.2
    revert h
    cases f a s' with
    | error e => exact id
    | ok q =>
      obtain ⟨b, s''⟩ := q
      intro h
      exact ⟨h.1.trans hx.1, h.2⟩

/-! ## Readers that keep or take tokens -/

namespace Reader

/-- From a stream that ends with the end of input and holds fewer than `n` tokens, `r` fails
for a reason of the grammar, never for want of steps, or leaves the same end of input and at
most as many tokens. -/
def KeepsBelow {α : Type} (n : Nat) (r : Reader α) : Prop :=
  ∀ s : TokenStream, s.eof.kind = .eof → s.size < n → Settles (· ≤ s.size) s (r s)

/-- As `KeepsBelow`, and a success takes at least one token. -/
def TakesBelow {α : Type} (n : Nat) (r : Reader α) : Prop :=
  ∀ s : TokenStream, s.eof.kind = .eof → s.size < n → Settles (· < s.size) s (r s)

/-- `r` never runs out of steps and never lengthens a stream, however long. -/
def Keeps {α : Type} (r : Reader α) : Prop := ∀ n, KeepsBelow n r

/-- `r` never runs out of steps and takes at least one token whenever it succeeds. -/
def Takes {α : Type} (r : Reader α) : Prop := ∀ n, TakesBelow n r

section Contracts

variable {α β : Type} {n : Nat} {r : Reader α} {f : α → Reader β}

theorem takesBelow_zero (r : Reader α) : TakesBelow 0 r :=
  fun _ _ h => absurd h (Nat.not_lt_zero _)

theorem TakesBelow.keepsBelow (h : TakesBelow n r) : KeepsBelow n r :=
  fun s hs hn => (h s hs hn).mono fun _ => Nat.le_of_lt

theorem Takes.keeps (h : Takes r) : Keeps r := fun n => (h n).keepsBelow

theorem KeepsBelow.bind (hr : KeepsBelow n r) (hf : ∀ a, KeepsBelow n (f a)) :
    KeepsBelow n (r >>= f) := fun s hs hn =>
  settles_bind (hr s hs hn) fun a s' he hle =>
    (hf a s' (he ▸ hs) (Nat.lt_of_le_of_lt hle hn)).mono fun _ hk => Nat.le_trans hk hle

theorem KeepsBelow.bind_takes (hr : KeepsBelow n r) (hf : ∀ a, TakesBelow n (f a)) :
    TakesBelow n (r >>= f) := fun s hs hn =>
  settles_bind (hr s hs hn) fun a s' he hle =>
    (hf a s' (he ▸ hs) (Nat.lt_of_le_of_lt hle hn)).mono fun _ hk => Nat.lt_of_lt_of_le hk hle

/-- A reader that takes a token leaves fewer than `n` tokens of `n + 1`: what follows it is
read within one step less. -/
theorem TakesBelow.bind (hr : TakesBelow (n + 1) r) (hf : ∀ a, KeepsBelow n (f a)) :
    TakesBelow (n + 1) (r >>= f) := fun s hs hn =>
  settles_bind (hr s hs hn) fun a s' he hlt =>
    (hf a s' (he ▸ hs) (by omega)).mono fun _ hk => Nat.lt_of_le_of_lt hk hlt

theorem Keeps.bind (hr : Keeps r) (hf : ∀ a, Keeps (f a)) : Keeps (r >>= f) :=
  fun n => (hr n).bind fun a => hf a n

theorem Keeps.bind_takes (hr : Keeps r) (hf : ∀ a, Takes (f a)) : Takes (r >>= f) :=
  fun n => (hr n).bind_takes fun a => hf a n

/-- No stream holds fewer than no tokens, so a reader takes tokens on every stream once it
does on those of fewer than `n + 1` for every `n`. -/
theorem takes_of_succ (h : ∀ n, TakesBelow (n + 1) r) : Takes r := by
  intro n
  cases n with
  | zero => exact takesBelow_zero r
  | succ n => exact h n

theorem Takes.bind (hr : Takes r) (hf : ∀ a, Keeps (f a)) : Takes (r >>= f) :=
  takes_of_succ fun n => (hr (n + 1)).bind fun a => hf a n

end Contracts

/-! ## Looking at and taking tokens -/

theorem keeps_pure {α : Type} (a : α) : Keeps (pure a : Reader α) :=
  fun _ _ _ _ => ⟨rfl, Nat.le_refl _⟩

theorem takes_fail {α : Type} {p : Problem} (hp : p ≠ .exhausted) (t : Token) :
    Takes (fail p t : Reader α) :=
  fun _ _ _ _ => hp

theorem keeps_peek : Keeps peek := fun _ _ _ _ => ⟨rfl, Nat.le_refl _⟩

theorem keeps_advance : Keeps advance := fun _ s _ _ => ⟨rfl, by simp⟩

/-- Taking a token that is not the end of input shortens the stream. -/
theorem settles_advance {s : TokenStream} (hs : s.eof.kind = .eof) (hk : s.peek.kind ≠ .eof) :
    Settles (· < s.size) s (advance s) :=
  ⟨rfl, TokenStream.size_advance_lt hs hk⟩

/-- Taking a token that is not the end of input, then reading on without lengthening the
stream, shortens it. -/
theorem settles_advance_bind {β : Type} {f : Unit → Reader β} {s : TokenStream}
    (hs : s.eof.kind = .eof) (hk : s.peek.kind ≠ .eof) (hf : ∀ a, Keeps (f a)) :
    Settles (· < s.size) s ((advance >>= f) s) :=
  settles_bind (settles_advance hs hk) fun a s' he hlt =>
    (hf a (s'.size + 1) s' (he ▸ hs) (Nat.lt_succ_self _)).mono fun _ hk =>
      Nat.lt_of_le_of_lt hk hlt

theorem keeps_check (k : TokenKind) : Keeps (check k) :=
  keeps_peek.bind fun _ => keeps_pure _

theorem keeps_eat (k : TokenKind) : Keeps (eat k) :=
  (keeps_check k).bind fun c => by
    cases c
    · exact keeps_pure false
    · exact keeps_advance.bind fun _ => keeps_pure true

theorem keeps_eatWord (w : String) : Keeps (eatWord w) :=
  keeps_peek.bind fun t => by
    by_cases h : t.isWord w
    · simpa [h] using keeps_advance.bind fun _ => keeps_pure true
    · simpa [h] using keeps_pure false

theorem takes_expect {k : TokenKind} (hk : k ≠ .eof) : Takes (expect k) := by
  intro n s hs hn
  rw [expect, peek_bind]
  by_cases h : s.peek.kind = k
  · simpa [h] using settles_advance hs (h ▸ hk)
  · simpa [h] using takes_fail (α := Unit) (by simp) s.peek n s hs hn

theorem takes_expectWord (wanted : String) : Takes (expectWord wanted) := by
  intro n s hs hn
  rw [expectWord, peek_bind]
  cases hk : s.peek.kind with
  | word w => exact settles_advance_bind hs (by simp [hk]) fun _ => keeps_pure w
  | _ => exact takes_fail (by simp) s.peek n s hs hn

theorem takes_expectQuoted (wanted : String) : Takes (expectQuoted wanted) := by
  intro n s hs hn
  rw [expectQuoted, peek_bind]
  cases hk : s.peek.kind with
  | quoted v => exact settles_advance_bind hs (by simp [hk]) fun _ => keeps_pure v
  | _ => exact takes_fail (by simp) s.peek n s hs hn

theorem keeps_skipSeparators : Keeps skipSeparators := fun _ s _ _ =>
  ⟨rfl, by simpa [skipSeparators, TokenStream.size] using (s.tokens.dropWhile_suffix _).length_le⟩

/-- A loop given one step more than the tokens left is read within its budget. -/
theorem keeps_budget_bind {α : Type} {f : Nat → Reader α} (hf : ∀ m, KeepsBelow m (f m)) :
    Keeps (budget >>= f) :=
  fun _ s hs _ => hf (s.size + 1) s hs (Nat.lt_succ_self _)

theorem takes_budget_bind {α : Type} {f : Nat → Reader α} (hf : ∀ m, TakesBelow m (f m)) :
    Takes (budget >>= f) :=
  fun _ s hs _ => hf (s.size + 1) s hs (Nat.lt_succ_self _)

end Reader

open Reader

/-! ## Types written in place -/

/-- A list type takes its bracket, so its element type is read within one step less. -/
theorem takesBelow_listOf {n : Nat} {inner : Reader TypeRef} (h : KeepsBelow n inner) :
    TakesBelow (n + 1) (listOf inner) :=
  (takes_expect (by decide) (n + 1)).bind fun _ => (keeps_eatWord _ n).bind fun _ =>
    h.bind fun _ => ((takes_expect (by decide)).keeps n).bind fun _ => keeps_pure _ n

/-- A map type takes its brace, so its value type is read within one step less. -/
theorem takesBelow_mapOf {n : Nat} {inner : Reader TypeRef} (h : KeepsBelow n inner) :
    TakesBelow (n + 1) (mapOf inner) :=
  (takes_expect (by decide) (n + 1)).bind fun _ => ((takes_expectWord _).keeps n).bind fun _ =>
    ((takes_expect (by decide)).keeps n).bind fun _ => (keeps_eatWord _ n).bind fun _ =>
      h.bind fun _ => ((takes_expect (by decide)).keeps n).bind fun _ => keeps_pure _ n

theorem takes_listOf {inner : Reader TypeRef} (h : Keeps inner) : Takes (listOf inner) :=
  takes_of_succ fun n => takesBelow_listOf (h n)

theorem takes_mapOf {inner : Reader TypeRef} (h : Keeps inner) : Takes (mapOf inner) :=
  takes_of_succ fun n => takesBelow_mapOf (h n)

theorem takes_linkTarget : Takes linkTarget :=
  (takes_expect (by decide)).bind fun _ => (takes_expectWord _).keeps

/-- Each level of a type written in place takes a token, so nesting `fuel` deep is enough for
fewer than `fuel` tokens. -/
theorem takesBelow_typeRefWithin (fuel : Nat) : TakesBelow fuel (typeRefWithin fuel) := by
  induction fuel with
  | zero => exact takesBelow_zero _
  | succ fuel ih =>
    intro s hs hn
    rw [typeRefWithin, peek_bind]
    cases hk : s.peek.kind with
    | word name => exact settles_advance_bind hs (by simp [hk]) fun _ => keeps_pure _
    | lbracket =>
      exact (takesBelow_listOf ih.keepsBelow).bind (fun _ => keeps_pure _ fuel) s hs hn
    | lbrace =>
      exact (takesBelow_mapOf ih.keepsBelow).bind (fun _ => keeps_pure _ fuel) s hs hn
    | amp => exact (takes_linkTarget.bind fun _ => keeps_pure _) (fuel + 1) s hs hn
    | _ => exact takes_fail (by simp) s.peek (fuel + 1) s hs hn

theorem takes_typeRef : Takes typeRef :=
  takes_budget_bind takesBelow_typeRefWithin

/-! ## Representations -/

theorem takes_parameter (strategy : String) (index : Nat) : Takes (parameter strategy index) := by
  intro n s hs hn
  rw [parameter, peek_bind]
  cases hk : s.peek.kind with
  | quoted v => exact settles_advance_bind hs (by simp [hk]) fun _ => keeps_pure _
  | word k =>
    exact settles_advance_bind hs (by simp [hk]) fun _ =>
      (keeps_eat _).bind fun _ => (takes_expectQuoted _).keeps.bind fun _ => keeps_pure _
  | _ => exact takes_fail (by simp) s.peek n s hs hn

/-- The parameter loop: each round takes a parameter, so one step per token is enough. -/
theorem keepsBelow_parametersWithin (strategy : String) (fuel index : Nat)
    (done : List (String × String)) :
    KeepsBelow fuel (parametersWithin strategy fuel index done) := by
  induction fuel generalizing index done with
  | zero => exact (takesBelow_zero _).keepsBelow
  | succ fuel ih =>
    rw [parametersWithin]
    refine (keeps_check _ _).bind fun closed => ?_
    cases closed
    · refine (keeps_peek _).bind fun t => TakesBelow.keepsBelow ?_
      refine (takes_parameter strategy index _).bind fun read => ?_
      obtain ⟨key, value, index'⟩ := read
      dsimp only
      have hnext : KeepsBelow fuel (do
          if (← eat .comma) then parametersWithin strategy fuel index' (done ++ [(key, value)])
          else pure (done ++ [(key, value)])) :=
        (keeps_eat _ _).bind fun more => by
          cases more
          · exact keeps_pure _ _
          · exact ih _ _
      split
      · exact ((takes_fail (by simp) t).keeps _).bind fun _ => hnext
      · exact hnext
    · exact keeps_pure _ _

theorem keeps_representation? : Keeps representation? := by
  refine keeps_peek.bind fun t => ?_
  split
  · exact keeps_pure _
  · refine keeps_advance.bind fun _ => (takes_expectWord _).keeps.bind fun strategy =>
      (keeps_eat _).bind fun paren => ?_
    cases paren
    · exact keeps_pure _
    · exact keeps_budget_bind fun m => (keepsBelow_parametersWithin strategy m 0 []).bind
        fun _ => ((takes_expect (by decide)).keeps m).bind fun _ => keeps_pure _ m

/-! ## Bodies -/

section Bodies

variable {α : Type} {item : Reader α}

/-- The item loop of a body: each round takes an item, so one step per token is enough. -/
theorem keepsBelow_itemsWithin (construct : String) (h : Takes item) (fuel : Nat)
    (done : List α) : KeepsBelow fuel (itemsWithin construct item fuel done) := by
  induction fuel generalizing done with
  | zero => exact (takesBelow_zero _).keepsBelow
  | succ fuel ih =>
    rw [itemsWithin]
    refine (keeps_check _ _).bind fun closed => ?_
    cases closed
    · refine (keeps_peek _).bind fun t => ?_
      have hnext : KeepsBelow (fuel + 1) (do
          let x ← item
          skipSeparators
          itemsWithin construct item fuel (done ++ [x])) :=
        ((h (fuel + 1)).bind fun x => (keeps_skipSeparators fuel).bind fun _ => ih _).keepsBelow
      dsimp only
      split
      · exact ((takes_fail (by simp) t).keeps _).bind fun _ => hnext
      · exact hnext
    · exact keeps_pure _ _

theorem takes_body (construct : String) (h : Takes item) : Takes (body construct item) :=
  (takes_expect (by decide)).bind fun _ =>
    keeps_budget_bind fun m => (keepsBelow_itemsWithin construct h m []).bind fun _ =>
      ((takes_expect (by decide)).keeps m).bind fun _ => keeps_pure _ m

theorem takes_piped (h : Takes item) : Takes (piped item) :=
  (keeps_eat _).bind_takes fun _ => h

end Bodies

/-! ## Fields, members and definitions -/

/-- Dropping modifiers leaves no more tokens than there were. -/
theorem length_modifiers_le (ts : List Token) (optional nullable : Bool) :
    (modifiers ts optional nullable).2.2.length ≤ ts.length := by
  fun_induction modifiers ts optional nullable <;> simp_all <;> omega

theorem takes_field : Takes field := by
  refine keeps_peek.bind_takes fun nameToken => (takes_expectWord _).bind fun name =>
    (keeps_eat _).bind fun colon => ?_
  intro n s hs hn
  rw [get_bind]
  rcases hm : modifiers s.tokens false false with ⟨optional, nullable, rest⟩
  have hlen := length_modifiers_le s.tokens false false
  simp only [hm, TokenStream.size] at hlen hn
  dsimp only
  rw [set_bind]
  have hrest : rest.length < n := Nat.lt_of_le_of_lt hlen hn
  refine ((keeps_peek.bind fun next => ?_) n ⟨rest, s.eof⟩ hs hrest).mono fun k hk =>
    Nat.le_trans hk hlen
  split
  · exact (takes_fail (by simp) nameToken).keeps.bind fun _ => takes_typeRef.keeps.bind fun _ =>
      keeps_pure _
  · exact takes_typeRef.keeps.bind fun _ => keeps_pure _

theorem takes_unionMember : Takes unionMember := by
  intro n s hs hn
  rw [unionMember, peek_bind]
  cases hk : s.peek.kind with
  | quoted d =>
    exact settles_advance_bind hs (by simp [hk]) fun _ =>
      (keeps_eat _).bind fun _ => (takes_expectWord _).keeps.bind fun _ => keeps_pure _
  | word type =>
    refine settles_advance_bind hs (by simp [hk]) fun _ => keeps_peek.bind fun d => ?_
    intro m s' hs' hm
    cases hd : d.kind with
    | quoted w => exact keeps_advance.bind (fun _ => keeps_pure _) m s' hs' hm
    | word w => exact keeps_advance.bind (fun _ => keeps_pure _) m s' hs' hm
    | _ => exact (takes_fail (by simp) d).keeps m s' hs' hm
  | _ => exact takes_fail (by simp) s.peek n s hs hn

theorem takes_enumMember : Takes enumMember :=
  (takes_expectWord _).bind fun _ => (keeps_eat _).bind fun valued => by
    cases valued
    · exact keeps_pure _
    · exact (takes_expectQuoted _).keeps.bind fun _ =>
        (takes_expect (by decide)).keeps.bind fun _ => keeps_pure _

theorem takes_definition : Takes definition := by
  intro n s hs hn
  rw [definition, peek_bind]
  cases hk : s.peek.kind with
  | word w =>
    refine settles_advance_bind hs (by simp [hk]) fun _ => ?_
    split
    · exact keeps_pure _
    · exact keeps_pure _
    · exact keeps_pure _
    · exact keeps_pure _
    · exact keeps_pure _
    · exact keeps_pure _
    · exact (takes_body _ takes_field).keeps.bind fun _ => keeps_representation?.bind fun _ =>
        keeps_pure _
    · exact (takes_body _ (takes_piped takes_unionMember)).keeps.bind fun _ =>
        keeps_representation?.bind fun _ => keeps_pure _
    · exact (takes_body _ (takes_piped takes_enumMember)).keeps.bind fun _ =>
        keeps_representation?.bind fun _ => keeps_pure _
    · exact keeps_pure _
  | equals =>
    exact settles_advance_bind hs (by simp [hk]) fun _ => (takes_expectWord _).keeps.bind fun _ =>
      keeps_pure _
  | amp => exact (takes_linkTarget.bind fun _ => keeps_pure _) n s hs hn
  | lbracket => exact ((takes_listOf takes_typeRef.keeps).bind fun _ => keeps_pure _) n s hs hn
  | lbrace =>
    refine ((takes_mapOf takes_typeRef.keeps).bind fun entry => ?_) n s hs hn
    obtain ⟨key, value, nullable⟩ := entry
    exact keeps_representation?.bind fun _ => keeps_pure _
  | _ => exact takes_fail (by simp) s.peek n s hs hn

/-! ## Declarations, streams and texts -/

/-- The declaration loop: each round takes the keyword `type`, so one step per token is
enough. -/
theorem keepsBelow_declarationsWithin (fuel : Nat) (done : List (String × TypeDefinition)) :
    KeepsBelow fuel (declarationsWithin fuel done) := by
  induction fuel generalizing done with
  | zero => exact (takesBelow_zero _).keepsBelow
  | succ fuel ih =>
    intro s hs hn
    rw [declarationsWithin, peek_bind]
    by_cases hend : s.peek.kind = .eof
    · rw [if_pos (by simpa using hend)]
      exact keeps_pure done (fuel + 1) s hs hn
    rw [if_neg (by simpa using hend)]
    dsimp only
    by_cases htype : s.peek.isWord "type"
    · rw [if_neg (by simpa using htype)]
      refine settles_bind (settles_advance hs hend) fun _ s' he hlt =>
        ((((takes_expectWord _).keeps fuel).bind fun name => (takes_definition.keeps fuel).bind
          fun d => ih (done ++ [(name, d)])) s' (he ▸ hs) (by omega)).mono fun _ hk => ?_
      omega
    · rw [if_pos (by simpa using htype), fail_bind]
      simp [Fault.at]

/-- The declarations of a stream that ends with the end of input are read to a document or to
a fault of the grammar. -/
theorem ofTokens_ne_exhausted {s : TokenStream} (hs : s.eof.kind = .eof) {f : Fault}
    (h : Document.ofTokens s = .error f) : f.problem ≠ .exhausted := by
  have hread := keepsBelow_declarationsWithin (s.size + 1) [] s hs (Nat.lt_succ_self _)
  unfold Document.ofTokens at h
  cases hd : declarationsWithin (s.size + 1) [] s with
  | error e =>
    simp only [StateT.run', Functor.map, StateT.map, hd, Except.map, bind, Except.bind] at h
    cases h
    rw [hd] at hread
    exact hread
  | ok p =>
    simp [StateT.run', Functor.map, StateT.map, hd, Except.map, bind, Except.bind, pure,
      Except.pure] at h

theorem PointsAt.problem_ne_exhausted {text : List Char} {f : Fault} (h : PointsAt text f) :
    f.problem ≠ .exhausted := by
  cases h <;> simp

/-- A scan ends its stream with the end of input, and its faults are faults of the text. -/
theorem scan_settles (source : String) :
    (∀ stream, scan source = .ok stream → stream.eof.kind = .eof) ∧
      ∀ f, scan source = .error f → f.problem ≠ .exhausted := by
  have hrun := Scanner.run_spec (s := .between) source.toList
    (show Scanner.between.Reads [] ([] : List Token).reverse from .trivia .nil)
  simp only [placeAfter_nil, List.nil_append] at hrun
  exact ⟨fun stream h => by rw [(hrun.1 stream h).2], fun f h => (hrun.2 f h).problem_ne_exhausted⟩

theorem parse_ne_exhausted {sourceName source : String} {e : ParseError}
    (h : Document.parse sourceName source = .error e) : e.fault.problem ≠ .exhausted := by
  unfold Document.parse at h
  cases hscan : scan source with
  | error f =>
    simp only [hscan, bind, Except.bind, Except.mapError, Except.error.injEq] at h
    subst h
    exact (scan_settles source).2 f hscan
  | ok stream =>
    simp only [hscan, bind, Except.bind] at h
    cases hread : Document.ofTokens stream with
    | error f =>
      simp only [hread, Except.mapError, Except.error.injEq] at h
      subst h
      exact ofTokens_ne_exhausted ((scan_settles source).1 stream hscan) hread
    | ok d => simp [hread, Except.mapError] at h

/-- Reading a schema never runs out of steps. Every round of the reader's loops takes a token:
a struct field, a union or enum member after its optional `|` and a representation parameter
each take at least one whenever they succeed, on a stream of any length; and every level of a
type written in place takes one, so nesting as deep as there are tokens is never spent. Hence
the declarations of every token stream that ends with the end of input, and so of every text,
are read to a document or to a fault of the text, never to `exhausted`. -/
theorem reading_never_runs_out :
    (Takes field ∧ Takes (piped unionMember) ∧ Takes (piped enumMember) ∧
        (∀ strategy index, Takes (parameter strategy index)) ∧
        ∀ fuel, TakesBelow fuel (typeRefWithin fuel)) ∧
      (∀ s : TokenStream, s.eof.kind = .eof →
        ∀ f, Document.ofTokens s = .error f → f.problem ≠ .exhausted) ∧
      ∀ sourceName source e, Document.parse sourceName source = .error e →
        e.fault.problem ≠ .exhausted :=
  ⟨⟨takes_field, takes_piped takes_unionMember, takes_piped takes_enumMember, takes_parameter,
      takesBelow_typeRefWithin⟩,
    fun _ hs _ h => ofTokens_ne_exhausted hs h, fun _ _ _ h => parse_ne_exhausted h⟩

/-- A list type left open at the end of the text is a fault of the text: a type was expected
where the input ends. -/
theorem reading_never_runs_out_unclosedList :
    Document.parse "schema.ipldsch" "type A [" =
        .error ⟨"schema.ipldsch", ⟨.expected "a type" .eof, ⟨1, 9⟩, "<end of input>"⟩⟩ ∧
      Problem.expected "a type" .eof ≠ .exhausted := by
  have hscan : scan "type A [" = .ok ⟨[⟨.word "type", ⟨1, 1⟩, "type"⟩, ⟨.word "A", ⟨1, 6⟩, "A"⟩,
      ⟨.lbracket, ⟨1, 8⟩, "["⟩], ⟨.eof, ⟨1, 9⟩, ""⟩⟩ := by rfl
  have hread : Document.ofTokens ⟨[⟨.word "type", ⟨1, 1⟩, "type"⟩, ⟨.word "A", ⟨1, 6⟩, "A"⟩,
      ⟨.lbracket, ⟨1, 8⟩, "["⟩], ⟨.eof, ⟨1, 9⟩, ""⟩⟩ =
      .error ⟨.expected "a type" .eof, ⟨1, 9⟩, "<end of input>"⟩ := by rfl
  have hparse : Document.parse "schema.ipldsch" "type A [" =
      .error ⟨"schema.ipldsch", ⟨.expected "a type" .eof, ⟨1, 9⟩, "<end of input>"⟩⟩ := by
    simp [Document.parse, hscan, hread, bind, Except.bind, Except.mapError]
  exact ⟨hparse, reading_never_runs_out.2.2 _ _ _ hparse⟩

end Ipld.Schema.Dsl
