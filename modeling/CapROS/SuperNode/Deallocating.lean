import CapROS.SuperNode.Growth

/-!
# Deallocating a range

The keeper is alone: no client is active. Keys in the tree only disappear, and a leaf is freed only if
all its addresses are in the range.

* `Shrunk`: what may change, with `Shrunk.rescind` for a node that is freed.
-/

namespace CapROS.SuperNode

open NodeKey Relation Calls

/-- A program of the keeper, alone. -/
abbrev Alone {α : Type} (post : α → Store → Prop) (p : Program α) (s : Store) : Prop :=
  Safe exec (fun _ s s' => s' = s) (fun _ _ => True) post p s

variable {α : Type} {post : α → Store → Prop} {s s' s'' : Store} {A : Places}
  {p q c d x a b j L M g lo hi lo' hi' : ℕ} {i : Fin 32} {o : Request} {k : Key}
  {first last regs : ℕ}

theorem alone_call {next : Answer → Program α} {r : Answer} (hexec : exec o s = (r, s'))
    (hnext : Alone post (next r) s') : Alone post (call o next) s := by
  rintro _ rfl
  rw [hexec]
  exact ⟨trivial, hnext⟩

theorem alone_expectOk {f : Answer → Program α} {r : Answer} (hexec : exec o s = (r, s'))
    (hcode : r.code = rcOk) (hnext : Alone post (f r) s') : Alone post (expectOk o >>= f) s := by
  rw [expectOk_bind]
  refine alone_call hexec ?_
  rw [if_pos hcode]
  exact hnext

theorem run_of_alone {p : Program α} (h : Alone post p s) :
    ∃ r s', p.run exec s = some (r, s') ∧ post r s' :=
  @Safe.run _ _ _ _ exec (fun _ s s' => s' = s) _ s post p (fun _ _ => rfl) h

/-! ## What may change -/

/-- Keys to nodes other than the root may have become void. The addresses outside the interval lead
where they did. -/
structure Shrunk (A : Places) (lo hi : ℕ) (s s' : Store) : Prop where
  slots : ∀ q i, (s'.nodes q).slots i = (s.nodes q).slots i ∨
    ((s'.nodes q).slots i = .void ∧ ∃ c, root < c ∧ objectOf ((s.nodes q).slots i) = some c)
  field : ∀ q, (s'.nodes q).l2vField = (s.nodes q).l2vField
  next : s'.next = s.next
  leads : ∀ x d i, At s A x d i → x < lo ∨ hi < x → At s' A x d i

namespace Shrunk

theorem refl (A : Places) (lo hi : ℕ) (s : Store) : Shrunk A lo hi s s :=
  ⟨fun _ _ => .inl rfl, fun _ => rfl, rfl, fun _ _ _ h _ => h⟩

theorem mono (h : Shrunk A lo hi s s') (hlo : lo' ≤ lo) (hhi : hi ≤ hi') : Shrunk A lo' hi' s s' :=
  ⟨h.slots, h.field, h.next, fun x d i hat hx => h.leads x d i hat (by omega)⟩

theorem trans (h : Shrunk A lo hi s s') (h' : Shrunk A lo hi s' s'') : Shrunk A lo hi s s'' where
  slots q i := by
    rcases h'.slots q i with heq | ⟨hvoid, c, hc, hobj⟩
    · rw [heq]
      exact h.slots q i
    · rcases h.slots q i with heq' | ⟨hvoid', -⟩
      · rw [heq'] at hobj
        exact .inr ⟨hvoid, c, hc, hobj⟩
      · rw [hvoid'] at hobj
        cases hobj
  field q := (h'.field q).trans (h.field q)
  next := h'.next.trans h.next
  leads x d i hat hx := h'.leads x d i (h.leads x d i hat hx) hx

theorem void (h : Shrunk A lo hi s s') (hq : (s.nodes q).slots i = .void) :
    (s'.nodes q).slots i = .void := by
  rcases h.slots q i with heq | ⟨hvoid, -⟩
  · rw [heq, hq]
  · exact hvoid

theorem shape (h : Shrunk A lo hi s s') (hs : Shape s A) : Shape s' A where
  top := hs.top
  level hq := by
    rw [l2v_congr (h.field _)]
    exact hs.level hq
  bought hq := by
    rw [h.next]
    exact hs.bought hq
  keeper hq := by
    rw [hasKeeper_congr (h.field _)]
    exact hs.keeper hq
  slots {q a L} hq h0 i hi := by
    rcases h.slots q i with heq | ⟨hvoid, -⟩
    · rw [heq]
      exact hs.slots hq h0 i hi
    · exact .inl hvoid

/-- A node that has no keys to others is freed. If it is a leaf, its addresses are in the interval. -/
theorem rescind (hroot : root < c) (hleaf : ∀ q, ¬Edge s A c q)
    (hin : ∀ b, A c = some (b, 0) → lo ≤ b ∧ b + 31 ≤ hi) : Shrunk A lo hi s (s.rescind c) where
  slots q i := by
    simp only [Store.rescind]
    by_cases h : objectOf ((s.nodes q).slots i) = some c
    · rw [if_pos h]
      exact .inr ⟨rfl, c, hroot, h⟩
    · rw [if_neg h]
      exact .inl rfl
  field q := rfl
  next := rfl
  leads x d i hat hx := by
    obtain ⟨b, hd, rfl⟩ := hat.place
    have hdc : d ≠ c := by
      rintro rfl
      have := hin b hd
      omega
    refine ⟨?_, hat.place, hat.usable⟩
    -- the way to `d` does not go through `c`
    have hway : ∀ {q}, Live s A q → q ≠ c → Live (s.rescind c) A q := fun {q} hq => by
      induction hq with
      | refl => exact fun _ => .refl
      | tail _ hedge ih =>
        intro hqc
        refine (ih fun h => hleaf _ (h ▸ hedge)).tail ?_
        obtain ⟨a, L, hp, h0, j, hj, hk⟩ := hedge
        refine ⟨a, L, hp, h0, j, hj, ?_⟩
        simp only [Store.rescind]
        rw [if_neg fun h => hqc (Option.some.inj (hk.symm.trans h)), hk]
    exact hway hat.live hdc

end Shrunk

/-! ## The procedure -/

theorem anyNonvoid_alone (hk : LeadsTo k q) (n : ℕ) :
    Alone (fun b s' => s' = s ∧ (b = false → n = 0)) (anyNonvoid k n) s := by
  cases n with
  | zero => exact ⟨rfl, fun _ => rfl⟩
  | succ n =>
    rw [anyNonvoid, ask_bind]
    refine alone_call (exec_getL2v hk s) ?_
    rw [if_pos fun h => (by cases h)]
    exact ⟨rfl, fun h => by cases h⟩

/-- A loop over all slots: each round goes on with the invariant, for what it adds to the result. -/
theorem anyNonempty_alone (I : ℕ → Bool → Store → Prop) {body : ℕ → Program Bool} {a n : ℕ} (acc : Bool)
    (hbody : ∀ j acc s, a ≤ j → j < a + n → I j acc s →
      Alone (fun b s' => I (j + 1) (acc || b) s') (body j) s) (h : I a acc s) :
    Alone (fun b s' => I (a + n) (acc || b) s') (anyNonempty body (List.range' a n)) s := by
  induction n generalizing a acc s with
  | zero =>
    show I a (acc || false) s
    rwa [Bool.or_false]
  | succ n ih =>
    rw [List.range'_succ, anyNonempty]
    refine .bind ((hbody a acc s le_rfl (by omega) h).mono fun b s' hs' => ?_)
    refine .bind ((ih _ (fun j acc s hj hlt => hbody j acc s (by omega) (by omega)) hs').mono
      fun rest s'' hs'' => ?_)
    show I (a + (n + 1)) (acc || (b || rest)) s''
    rwa [← Bool.or_assoc, show a + (n + 1) = a + 1 + n by omega]

/-- The slots that are reported to be empty. -/
def ReportedEmpty (s : Store) (q L first last : ℕ) : Option (ℕ × ℕ) → Prop
  | none => True
  | some (f, l) =>
      (L = 0 → first = 0 ∧ last = 31) ∧ (L = 0 → f = 0 ∧ l = 31) ∧
        (0 < L → l < 32 ∧ ∀ i : Fin 32, f ≤ i.val → i.val ≤ l → (s.nodes q).slots i = .void)

theorem slotRange_within (hj : first / span L ≤ j) (hj' : j ≤ last / span L) :
    first ≤ j * span L + firstIn L first j ∧ j * span L + lastIn L last j ≤ last := by
  have hpos := span_pos L
  have hfirst := Nat.lt_div_mul_add (a := first) hpos
  have hlast := Nat.div_mul_le_self last (span L)
  rw [firstIn, lastIn, two_pow_l2v5Shift]
  constructor
  · by_cases h : j = first / span L
    · rw [if_pos h]
      omega
    · rw [if_neg h]
      have := Nat.mul_le_mul_right (span L) (show first / span L + 1 ≤ j by omega)
      rw [Nat.succ_mul] at this
      omega
  · by_cases h : j = last / span L
    · have hmul : j * span L = last / span L * span L := by rw [← h]
      rw [if_pos h]
      omega
    · rw [if_neg h]
      have := Nat.mul_le_mul_right (span L) (show j + 1 ≤ last / span L by omega)
      rw [Nat.succ_mul] at this
      omega

theorem deallocateLeaf_alone (hle : first ≤ last) (hlast : last < span (0 + 1)) (regs : ℕ) :
    Alone (fun r s' => Shrunk A (a + first) (a + last) s s' ∧ ReportedEmpty s' q 0 first last r)
      (deallocateRange regs k 0 first last) s := by
  rw [deallocateRange, check_pos hle, done_bind, if_pos rfl, check_pos (show last < nSlots from hlast),
    done_bind]
  split
  next hall =>
    refine ⟨.refl A _ _ s, fun _ => hall, fun _ => hall, fun h => absurd h (lt_irrefl 0)⟩
  next => exact ⟨.refl A _ _ s, trivial⟩

theorem deallocateRange_alone (hs : Shape s A) (hq : A q = some (a, L)) (hk : LeadsTo k q)
    (hle : first ≤ last) (hlast : last < span (L + 1)) (hroot : q = root → last / span L < keeperSlot)
    (hregs : L ≤ regs) :
    Alone (fun r s' => Shrunk A (a + first) (a + last) s s' ∧ ReportedEmpty s' q L first last r)
      (deallocateRange regs k L first last) s := by
  induction regs generalizing s q a L k first last with
  | zero =>
    obtain rfl : L = 0 := by omega
    exact deallocateLeaf_alone hle hlast 0
  | succ regs ih =>
    rcases Nat.eq_zero_or_pos L with rfl | h0
    · exact deallocateLeaf_alone hle hlast _
    have hlast32 : last / span L < 32 := by
      rw [Nat.div_lt_iff_lt_mul (span_pos L), ← span_succ]
      exact hlast
    rw [deallocateRange, check_pos hle, done_bind, if_neg h0.ne',
      check_pos (show last / 2 ^ l2v5Shift L < nSlots from hlast32), done_bind]
    simp only [slotsOf, two_pow_l2v5Shift]
    refine .bind ((anyNonempty_alone (fun j acc s' => Shrunk A (a + first) (a + last) s s' ∧
      (acc = false → ∀ i : Fin 32, first / span L ≤ i.val → i.val < j → (s'.nodes q).slots i = .void))
      false ?_ ⟨.refl A _ _ s, fun _ i hi hlt => absurd hi (not_le.2 hlt)⟩).mono ?_)
    swap
    · rintro b s' ⟨hshrunk, hvoid⟩
      cases b with
      | true => exact ⟨hshrunk, trivial⟩
      | false =>
        refine ⟨hshrunk, fun h => absurd h h0.ne', fun h => absurd h h0.ne', fun _ => ⟨hlast32, ?_⟩⟩
        exact fun i hi hlt => hvoid rfl i hi (by omega)
    rintro j acc s₁ hj hjlt ⟨h₁, hvoid₁⟩
    have hj32 : j < 32 := by omega
    have hs₁ := h₁.shape hs
    obtain ⟨hsf, hsl, -⟩ := slotRange hle L j
    have hjroot : q = root → j ≠ 31 := fun h => by
      have := hroot h
      rw [keeperSlot] at this
      omega
    -- what the round adds to the slots known to be void
    have hround : ∀ s₂ b, Shrunk A (a + first) (a + last) s₁ s₂ →
        (b = false → (s₂.nodes q).slots ⟨j, hj32⟩ = .void) →
        Shrunk A (a + first) (a + last) s s₂ ∧ ((acc || b) = false → ∀ i : Fin 32,
          first / span L ≤ i.val → i.val < j + 1 → (s₂.nodes q).slots i = .void) := by
      intro s₂ b h₂ hb
      refine ⟨h₁.trans h₂, fun hor i hi hlt => ?_⟩
      obtain ⟨hacc, hbf⟩ := Bool.or_eq_false_iff.1 hor
      rcases Nat.lt_succ_iff_lt_or_eq.1 hlt with hij | hij
      · exact h₂.void (hvoid₁ hacc i hi hij)
      · rw [show i = ⟨j, hj32⟩ from Fin.ext hij]
        exact hb hbf
    refine alone_expectOk (exec_getSlot hk s₁ hj32) rfl ?_
    rw [ask_bind]
    rcases hs₁.slots hq h0 ⟨j, hj32⟩ hjroot with hvoid | ⟨c, g, M, hkey, hc, hcroot, hM, hrep, -, hg⟩
    · simp only [hvoid]
      refine alone_call (r := { code := .exit .void }) rfl ?_
      rw [if_pos fun h => (by cases h), check_pos rfl, done_bind]
      exact hround s₁ false (.refl A _ _ s₁) fun _ => hvoid
    simp only [hkey]
    replace hc : A c = some (a + j * span L + g, M) := hc
    have hck := leadsTo_guarded c g
    have h30 := hs₁.lt_pow hq
    have hposM := span_pos (M + 1)
    refine alone_call (exec_getL2v hck s₁) ?_
    rw [(hs₁.level hc).1, if_neg fun h => h rfl]
    simp only
    rw [show l2v5Shift M / l2nSlots = M from Nat.mul_div_cancel _ (by decide),
      check_pos (show M * l2nSlots = l2v5Shift M from rfl), done_bind]
    refine alone_expectOk (exec_getGuard hck s₁) rfl ?_
    simp only [getGuard_guarded hrep (show g < 2 ^ 32 by omega)]
    set firstRel := if firstIn L first j ≤ g then 0 else firstIn L first j - g with hfirstRel
    split
    next => exact hround s₁ true (.refl A _ _ s₁) fun h => by cases h
    next hinside =>
    rw [not_or, not_lt, not_lt] at hinside
    have hfirstRel' : firstIn L first j ≤ firstRel + g ∧ (firstRel = 0 ∨ firstRel + g = firstIn L first j) := by
      rw [hfirstRel]
      split <;> omega
    -- the range under the node is within the whole range
    obtain ⟨hlow, hup⟩ := slotRange_within hj (show j ≤ last / span L by omega)
    refine .bind ((ih hs₁ hc hck (by omega) (by omega) (fun h => absurd h hcroot) (by omega)).mono ?_)
    rintro r s₂ ⟨h₂, hempty⟩
    have h₂' : Shrunk A (a + first) (a + last) s₁ s₂ := h₂.mono (by omega) (by omega)
    rcases r with _ | ⟨f, l⟩
    · exact hround s₂ true h₂' fun h => by cases h
    obtain ⟨hwhole, hleaf, hinner⟩ := hempty
    refine .bind ((anyNonvoid_alone hck f).mono ?_)
    rintro b s₃ ⟨rfl, hb⟩
    cases b with
    | true => exact hround s₃ true h₂' fun h => by cases h
    | false =>
      refine .bind ((anyNonvoid_alone hck (nSlots - 1 - l)).mono ?_)
      rintro b s₄ ⟨rfl, hb'⟩
      cases b with
      | true => exact hround s₄ true h₂' fun h => by cases h
      | false =>
        -- all slots of the node are known to be empty
        rw [if_neg Bool.false_ne_true, ask_bind]
        refine alone_call (show exec (.free1 (guarded c g)) s₄ = ({}, s₄.rescind c) by
          rw [exec, withNode_leadsTo hck]) ?_
        have hf : f = 0 := hb rfl
        have hl : 31 ≤ l := by
          have := hb' rfl
          rw [nSlots] at this
          omega
        have hcroot' : root < c := lt_of_le_of_ne (hs₁.bought hc).1 hcroot.symm
        have hvoidc : ∀ c', ¬Edge s₄ A c c' := by
          rintro c' ⟨a', M', hc', hM', i, -, hi⟩
          rw [hc] at hc'
          cases hc'
          rw [(hinner hM').2 i (by omega) (by omega)] at hi
          cases hi
        have hfreed : Shrunk A (a + first) (a + last) s₄ (s₄.rescind c) := by
          refine .rescind hcroot' hvoidc fun b hcb => ?_
          rw [hc] at hcb
          cases hcb
          omega
        refine hround _ false (h₂'.trans hfreed) fun _ => ?_
        -- the slot had the key to the node that is freed
        rcases h₂.slots q ⟨j, hj32⟩ with heq | ⟨hvoid, -⟩
        · simp only [Store.rescind]
          rw [heq, hkey, objectOf_guarded, if_pos rfl]
        · exact hfreed.void hvoid

end CapROS.SuperNode
