import CapROS.NodeKey.Demarcation
import Mathlib.Data.List.Pairwise

/-!
# Walks through graphs of nodes

`WalkExtended` (`pk_NodeKey.c`) goes from node to node as the bits of an address tell. A slot may hold
a key to any node, also to one that was passed before, so that the graph can have cycles and two paths
can end in the same slot. The reference is a recursion on the `l2v` of the nodes, with the arithmetic of
natural numbers.

* `lookup_decreases`: the `l2v` decreases strictly on that way.
* `walkFrom_read`, `walkFrom_write`: the loop of `WalkExtended` goes the same way; a key that is
  read-only stops a walk that is to write.
-/

namespace CapROS.NodeKey

open Yielding
open Function (update update_self update_of_ne)

/-- The first address that the guard of a key lets pass. -/
def guardStart (k : Key) : ℕ := k.guard * 2 ^ k.l2g

/-- How many slots of the node can be addressed: not the last one if it has the keeper. -/
def NodeContent.numSlots (c : NodeContent) : ℕ := if c.hasKeeper then 31 else 32

/-- What an address designates. -/
structure Place where
  oid : ℕ
  slot : Fin 32
  /-- The keys on the way, from the one that is invoked to the one that designates the node. -/
  keys : List Key
  deriving DecidableEq

/-- The same place, with one more key on the way. -/
def Place.via (k : Key) (p : Place) : Place := { p with keys := k :: p.keys }

/-- What the address designates, through a node whose `l2v` is less than `bound`. -/
def lookup (contents : ℕ → NodeContent) (bound : ℕ) (k : Key) (addr : ℕ) : Except ExitCode Place :=
  if addr < guardStart k then .error .noAddr
  else
    match objectOf k with
    | none => .error .noAddr
    | some oid =>
        let c := contents oid
        let offset := addr - guardStart k
        if _hl2v : c.l2v < bound then
          if offset / 2 ^ c.l2v < c.numSlots then
            let slot := Fin.ofNat 32 (offset / 2 ^ c.l2v)
            if c.l2v = 0 then .ok ⟨oid, slot, [k]⟩
            else if (c.slots slot).isType .node then
              (lookup contents c.l2v (c.slots slot) (offset % 2 ^ c.l2v)).map (Place.via k)
            else .error .noAddr
          else .error .noAddr
        else .error .nondecreasing
termination_by bound

/-- The contents of the nodes. -/
def World.contents (w : World) (oid : ℕ) : NodeContent := (w.nodes oid).content

/-- The `l2v` of the node that a key designates. -/
def l2vOf (contents : ℕ → NodeContent) (k : Key) : ℕ :=
  match objectOf k with
  | some oid => (contents oid).l2v
  | none => 0

/-- The contents after a key was stored. -/
def store (contents : ℕ → NodeContent) (oid : ℕ) (slot : Fin 32) (k : Key) : ℕ → NodeContent :=
  update contents oid ((contents oid).setSlot slot k)

variable {contents : ℕ → NodeContent} {nodes : ℕ → Node} {w w' : World} {k k' : Key} {m m' : Message}
  {p q : Place} {bound fuel addr oid : ℕ} {slot : Fin 32} {restrictions : BitVec 5} {e : ExitCode}

/-! ### The reference -/

variable {r : Except ExitCode Place}

theorem map_via_eq_ok (h : r.map (Place.via k) = .ok p) :
    ∃ q, r = .ok q ∧ p = q.via k := by
  cases r with
  | error e => cases h
  | ok q => exact ⟨q, rfl, (Except.ok.inj h).symm⟩

theorem map_via_eq_error (h : r.map (Place.via k) = .error e) : r = .error e := by
  cases r with
  | error e' => exact congrArg _ (Except.error.inj h)
  | ok q => cases h

section Lookup

variable (h : lookup contents bound k addr = .ok p)
include h

/-- What a lookup that finds a place has found out: the node in which it starts is the last one, or the
path goes on from one of its slots. -/
theorem lookup_cases :
    ∃ oid slot, objectOf k = some oid ∧ (contents oid).l2v < bound ∧
      (((contents oid).l2v = 0 ∧ p = ⟨oid, slot, [k]⟩) ∨
        ((contents oid).l2v ≠ 0 ∧ ∃ addr' q,
          lookup contents (contents oid).l2v ((contents oid).slots slot) addr' = .ok q ∧ p = q.via k)) := by
  rw [lookup] at h
  split at h
  · cases h
  split at h
  · cases h
  rename_i oid hobj
  dsimp only at h
  split at h
  · rename_i hl2v
    refine ⟨oid, Fin.ofNat 32 ((addr - guardStart k) / 2 ^ (contents oid).l2v), hobj, hl2v, ?_⟩
    split at h
    · split at h
      · exact .inl ⟨‹_›, (Except.ok.inj h).symm⟩
      · rename_i hne
        split at h
        · obtain ⟨q, hq, hp⟩ := map_via_eq_ok h
          exact .inr ⟨hne, _, q, hq, hp⟩
        · cases h
    · cases h
  · cases h

theorem mem_keys_of_lookup : k ∈ p.keys := by
  obtain ⟨oid, slot, -, -, ⟨-, rfl⟩ | ⟨-, addr', q, -, rfl⟩⟩ := lookup_cases h
  · exact List.mem_singleton_self k
  · exact List.mem_cons_self

/-- On the way to a place the `l2v` decreases strictly, and it starts below the bound. -/
theorem lookup_decreases :
    (p.keys.map (l2vOf contents)).Pairwise (· > ·) ∧ ∀ k' ∈ p.keys, l2vOf contents k' < bound := by
  induction bound using Nat.strong_induction_on generalizing k addr p with
  | _ bound ih =>
    obtain ⟨oid, slot, hobj, hlt, hend | ⟨-, addr', q, hq, rfl⟩⟩ := lookup_cases h
    · obtain ⟨-, rfl⟩ := hend
      simpa [l2vOf, hobj] using hlt
    · -- the rest of the way stays below the `l2v` of this node
      obtain ⟨hpair, hbelow⟩ := ih _ hlt hq
      have hself : l2vOf contents k = (contents oid).l2v := by rw [l2vOf, hobj]
      constructor
      · refine List.pairwise_cons.2 ⟨fun n hn => ?_, hpair⟩
        obtain ⟨k', hk', rfl⟩ := List.mem_map.1 hn
        rw [hself]
        exact hbelow k' hk'
      · intro k' hk'
        rcases List.mem_cons.1 hk' with rfl | hk'
        · rw [hself]
          exact hlt
        · exact (hbelow k' hk').trans hlt

theorem lookup_l2v : (contents p.oid).l2v = 0 := by
  induction bound using Nat.strong_induction_on generalizing k addr p with
  | _ bound ih =>
    obtain ⟨oid, slot, hobj, hlt, ⟨hzero, rfl⟩ | ⟨-, addr', q, hq, rfl⟩⟩ := lookup_cases h
    · exact hzero
    · exact ih (p := q) _ hlt hq

end Lookup

theorem l2v_setSlot (c : NodeContent) (slot : Fin 32) (k : Key) : (c.setSlot slot k).l2v = c.l2v := rfl

theorem numSlots_setSlot (c : NodeContent) (slot : Fin 32) (k : Key) :
    (c.setSlot slot k).numSlots = c.numSlots := rfl

theorem l2v_store (contents : ℕ → NodeContent) (oid : ℕ) (slot : Fin 32) (k : Key) (o : ℕ) :
    (store contents oid slot k o).l2v = (contents o).l2v := by
  unfold store
  by_cases ho : o = oid
  · subst ho
    rw [update_self, l2v_setSlot]
  · rw [update_of_ne ho]

theorem numSlots_store (contents : ℕ → NodeContent) (oid : ℕ) (slot : Fin 32) (k : Key) (o : ℕ) :
    (store contents oid slot k o).numSlots = (contents o).numSlots := by
  unfold store
  by_cases ho : o = oid
  · subst ho
    rw [update_self, numSlots_setSlot]
  · rw [update_of_ne ho]

/-- Storing a key in a node at the bottom level changes no path: paths go on from slots of other nodes
only. -/
theorem lookup_store (hbottom : (contents oid).l2v = 0) (slot : Fin 32) (k' : Key) :
    lookup (store contents oid slot k') bound k addr = lookup contents bound k addr := by
  induction bound using Nat.strong_induction_on generalizing k addr with
  | _ bound ih =>
    rw [lookup, lookup]
    cases hobj : objectOf k with
    | none => rfl
    | some o =>
        simp only [l2v_store, numSlots_store]
        by_cases hzero : (contents o).l2v = 0
        · simp only [hzero, reduceIte]
        · have hne : o ≠ oid := fun heq => hzero (heq ▸ hbottom)
          have hself : store contents oid slot k' o = contents o := update_of_ne hne _ _
          rw [hself]
          by_cases hlt : (contents o).l2v < bound
          · simp only [ih _ hlt]
          · simp only [hlt, dite_false]

/-! ### The loop -/

/-- A key on the way forbids writing, or one that was passed before did. -/
def Forbidden (restrictions : BitVec 5) (keys : List Key) : Prop :=
  restrictions &&& nodeReadOnly ≠ 0 ∨ ∃ k ∈ keys, k.hasPerm nodeReadOnly

instance (restrictions : BitVec 5) (keys : List Key) : Decidable (Forbidden restrictions keys) :=
  inferInstanceAs (Decidable (_ ∨ ∃ k ∈ keys, _))

/-- The walk ends as the reference says, except that a walk that is to write can end with `NoAccess`,
and always does so if writing is forbidden on the way to a place. -/
def Follows (write : Bool) (restrictions : BitVec 5) (r : Except ExitCode Place) (walk : Walk) : Prop :=
  match r with
  | .ok p =>
      walk = if write ∧ Forbidden restrictions p.keys then .fault .noAccess else .found p.oid p.slot
  | .error e => walk = .fault e ∨ write ∧ walk = .fault .noAccess

/-- The guard lets an address pass from `guardStart` on, and leaves what the address is beyond that. -/
theorem checkGuard_cases (k : Key) (addr : BitVec 32) :
    (addr.toNat < guardStart k ∧ checkGuard k addr = none) ∨
      (guardStart k ≤ addr.toNat ∧
        ∃ rest, checkGuard k addr = some rest ∧ rest.toNat = addr.toNat - guardStart k) := by
  have haddr := addr.isLt
  unfold checkGuard guardStart
  split
  · rename_i hl2g
    split
    · -- the guard starts beyond the last address
      rename_i hguard
      have hle : 2 ^ 32 ≤ k.guard * 2 ^ k.l2g :=
        (Nat.pow_le_pow_right (by omega) hl2g).trans (Nat.le_mul_of_pos_left _ (Nat.pos_of_ne_zero hguard))
      exact .inl ⟨haddr.trans_le hle, rfl⟩
    · rename_i hguard
      have hzero : k.guard = 0 := not_not.1 hguard
      rw [hzero, Nat.zero_mul]
      exact .inr ⟨Nat.zero_le _, addr, rfl, rfl⟩
  · have hdiv : (addr >>> k.l2g).toNat < k.guard ↔ addr.toNat < k.guard * 2 ^ k.l2g := by
      rw [BitVec.toNat_ushiftRight, Nat.shiftRight_eq_div_pow]
      exact Nat.div_lt_iff_lt_mul (Nat.two_pow_pos _)
    by_cases hlt : addr.toNat < k.guard * 2 ^ k.l2g
    · rw [if_pos (hdiv.2 hlt)]
      exact .inl ⟨hlt, rfl⟩
    · have hle := Nat.le_of_not_lt hlt
      rw [if_neg (mt hdiv.1 hlt)]
      refine .inr ⟨hle, _, rfl, ?_⟩
      have hguard : (BitVec.ofNat 32 k.guard <<< k.l2g).toNat = k.guard * 2 ^ k.l2g := by
        rw [BitVec.toNat_shiftLeft, BitVec.toNat_ofNat, Nat.shiftLeft_eq,
          Nat.mod_eq_of_lt (by omega : k.guard < 2 ^ 32), Nat.mod_eq_of_lt (by omega)]
      rw [BitVec.toNat_sub_of_le (by rwa [BitVec.le_def, hguard]), hguard]

theorem slotAt_eq (c : NodeContent) (addr : BitVec 32) :
    slotAt c addr = if addr.toNat / 2 ^ c.l2v < c.numSlots then
      some (Fin.ofNat 32 (addr.toNat / 2 ^ c.l2v)) else none := by
  have hndx : (addr >>> c.l2v).toNat = addr.toNat / 2 ^ c.l2v := by
    rw [BitVec.toNat_ushiftRight, Nat.shiftRight_eq_div_pow]
  unfold slotAt NodeContent.numSlots
  rw [hndx]
  generalize addr.toNat / 2 ^ c.l2v = n
  have hslot (h : n < 32) : (⟨n, h⟩ : Fin 32) = Fin.ofNat 32 n :=
    Fin.ext (Nat.mod_eq_of_lt h).symm
  by_cases hk : c.hasKeeper
  · by_cases hn : n < 32
    · by_cases hlast : n = 31
      · simp [hk, hlast]
      · simp [hk, hn, hlast, hslot hn, show n < 31 by omega]
    · simp [hk, hn, show ¬n < 31 by omega]
  · by_cases hn : n < 32
    · simp [hk, hn, hslot hn]
    · simp [hk, hn]

theorem toNat_mask (addr : BitVec 32) (l2v : ℕ) :
    (addr &&& (BitVec.ofNat 32 (2 ^ l2v) - 1)).toNat = addr.toNat % 2 ^ l2v := by
  rcases Nat.lt_or_ge l2v 32 with hlt | hge
  · have hpow : 2 ^ l2v < 2 ^ 32 := Nat.pow_lt_pow_right (by omega) hlt
    have hone : 1 ≤ 2 ^ l2v := Nat.one_le_two_pow
    have hmask : (BitVec.ofNat 32 (2 ^ l2v) - 1).toNat = 2 ^ l2v - 1 := by
      rw [BitVec.toNat_sub_of_le]
      · rw [BitVec.toNat_ofNat, Nat.mod_eq_of_lt hpow]
        rfl
      · rw [BitVec.le_def, BitVec.toNat_ofNat, Nat.mod_eq_of_lt hpow]
        exact hone
    rw [BitVec.toNat_and, hmask, Nat.and_two_pow_sub_one_eq_mod]
  · -- there is no bit of the address beyond the mask
    have hdvd : 2 ^ 32 ∣ 2 ^ l2v := Nat.pow_dvd_pow 2 hge
    have hzero : BitVec.ofNat 32 (2 ^ l2v) = 0 := by
      apply BitVec.eq_of_toNat_eq
      rw [BitVec.toNat_ofNat, Nat.mod_eq_zero_of_dvd hdvd]
      rfl
    have hones : (0 : BitVec 32) - 1 = BitVec.allOnes 32 := by decide
    have hlt : addr.toNat < 2 ^ l2v := addr.isLt.trans_le (Nat.pow_le_pow_right (by omega) hge)
    rw [hzero, hones, BitVec.and_allOnes, Nat.mod_eq_of_lt hlt]

theorem follows_fault (write : Bool) (restrictions : BitVec 5) (e : ExitCode) :
    Follows write restrictions (.error e) (.fault e) := .inl rfl

theorem or_and_readOnly (restrictions : BitVec 5) (k : Key) :
    (restrictions ||| k.keyPerms) &&& nodeReadOnly ≠ 0 ↔
      restrictions &&& nodeReadOnly ≠ 0 ∨ k.hasPerm nodeReadOnly := by
  unfold Key.hasPerm
  rw [decide_eq_true_iff]
  generalize k.keyPerms = perms
  revert restrictions perms
  decide

theorem follows_noAccess (contents : ℕ → NodeContent) (bound addr : ℕ)
    (hbits : (restrictions ||| k.keyPerms) &&& nodeReadOnly ≠ 0) :
    Follows true restrictions (lookup contents bound k addr) (.fault .noAccess) := by
  cases hr : lookup contents bound k addr with
  | error e => exact .inr ⟨rfl, rfl⟩
  | ok p =>
      have hforbidden : Forbidden restrictions p.keys := by
        rcases (or_and_readOnly restrictions k).1 hbits with hold | hnew
        · exact .inl hold
        · exact .inr ⟨k, mem_keys_of_lookup hr, hnew⟩
      exact (if_pos ⟨rfl, hforbidden⟩).symm

variable {write : Bool}

theorem Follows.via {walk : Walk} (h : Follows write (restrictions ||| k.keyPerms) r walk) :
    Follows write restrictions (r.map (Place.via k)) walk := by
  cases r with
  | error e => exact h
  | ok p =>
      have hiff : Forbidden (restrictions ||| k.keyPerms) p.keys ↔ Forbidden restrictions (k :: p.keys) := by
        unfold Forbidden
        rw [or_and_readOnly, or_assoc, List.exists_mem_cons_iff]
      change walk = if _ ∧ Forbidden restrictions (k :: p.keys) then _ else _
      rw [h]
      exact if_congr (and_congr_right' hiff) rfl rfl

theorem follows_found
    (hbits : ¬(write = true ∧ (restrictions ||| k.keyPerms) &&& nodeReadOnly ≠ 0)) :
    Follows write restrictions (.ok ⟨oid, slot, [k]⟩) (.found oid slot) := by
  have hno : ¬(write = true ∧ Forbidden restrictions [k]) := by
    rintro ⟨hwrite, hforbidden⟩
    refine hbits ⟨hwrite, (or_and_readOnly restrictions k).2 ?_⟩
    simpa [Forbidden] using hforbidden
  exact (if_neg hno).symm

theorem walkFrom_follows (nodes : ℕ → Node) (write : Bool) (k : Key) (addr : BitVec 32)
    (restrictions : BitVec 5) (hpos : 0 < bound) (hfuel : bound ≤ fuel) :
    Follows write restrictions (lookup (fun o => (nodes o).content) bound k addr.toNat)
      (walkFrom nodes write fuel k addr restrictions bound) := by
  induction fuel generalizing bound k addr restrictions with
  | zero => omega
  | succ fuel ih =>
      rw [walkFrom]
      rcases checkGuard_cases k addr with ⟨hlt, hnone⟩ | ⟨hle, rest, hsome, hrest⟩
      · rw [lookup, if_pos hlt, hnone]
        exact follows_fault _ _ _
      rw [hsome]
      dsimp only
      by_cases hbits : write = true ∧ (restrictions ||| k.keyPerms) &&& nodeReadOnly ≠ 0
      · -- the restrictions are checked before the node
        rw [if_pos hbits]
        obtain ⟨rfl, hbits⟩ := hbits
        exact follows_noAccess _ _ _ hbits
      rw [if_neg hbits, lookup, if_neg (Nat.not_lt_of_ge hle)]
      cases hobj : objectOf k with
      | none => exact follows_fault _ _ _
      | some oid =>
          dsimp only
          rw [← hrest]
          by_cases hl2v : (nodes oid).content.l2v < bound
          · rw [dif_pos hl2v, if_neg (Nat.not_le_of_lt hl2v), slotAt_eq]
            by_cases hslot : rest.toNat / 2 ^ (nodes oid).content.l2v < (nodes oid).content.numSlots
            · rw [if_pos hslot, if_pos hslot]
              dsimp only
              by_cases hzero : (nodes oid).content.l2v = 0
              · rw [if_pos hzero, if_pos hzero]
                exact follows_found hbits
              · rw [if_neg hzero, if_neg hzero]
                split
                · rw [← toNat_mask]
                  exact (ih _ _ _ (Nat.pos_of_ne_zero hzero) (by omega)).via
                · exact follows_fault _ _ _
            · rw [if_neg hslot, if_neg hslot]
              exact follows_fault _ _ _
          · rw [dif_neg hl2v, if_pos (Nat.le_of_not_lt hl2v)]
            exact follows_fault _ _ _

theorem walkFrom_fuel {fuel' : ℕ} {addr : BitVec 32} (hfuel : bound ≤ fuel)
    (hfuel' : bound ≤ fuel') (hpos : 0 < bound) :
    walkFrom nodes write fuel k addr restrictions bound =
      walkFrom nodes write fuel' k addr restrictions bound := by
  induction fuel generalizing fuel' bound k addr restrictions with
  | zero => omega
  | succ fuel ih =>
      obtain ⟨n, rfl⟩ : ∃ n, fuel' = n + 1 := ⟨fuel' - 1, by omega⟩
      rw [walkFrom, walkFrom]
      cases checkGuard k addr with
      | none => rfl
      | some rest =>
          cases objectOf k with
          | none => rfl
          | some oid =>
              dsimp only
              by_cases hl2v : (nodes oid).content.l2v ≥ bound
              · rw [if_pos hl2v, if_pos hl2v]
              · rw [if_neg hl2v, if_neg hl2v]
                cases slotAt (nodes oid).content rest with
                | none => rfl
                | some slot =>
                    dsimp only
                    by_cases hzero : (nodes oid).content.l2v = 0
                    · rw [if_pos hzero, if_pos hzero]
                    · -- the `l2v` is less in the next round
                      have hn : (nodes oid).content.l2v ≤ n := by omega
                      rw [ih (by omega) hn (Nat.pos_of_ne_zero hzero)]

/-! ### Fetches and swaps -/

/-- What the address of a message designates. -/
def lookupAt (w : World) (k : Key) (m : Message) : Except ExitCode Place :=
  lookup w.contents (l2vMask.toNat + 1) k m.w1.toNat

/-- The answer to a fetch. -/
def fetched (contents : ℕ → NodeContent) (r : Except ExitCode Place) : Reply :=
  match r with
  | .ok p => .ret .ok 0 (some ((contents p.oid).slots p.slot))
  | .error e => .ret e 0 none

/-- A key on the way is read-only or weak. -/
def Place.Restricted (p : Place) : Prop :=
  ∃ k ∈ p.keys, k.hasPerm nodeReadOnly ∨ k.hasPerm memoryWeak

/-- The two places are the same slot. -/
def Place.SameSlot (p q : Place) : Prop := p.oid = q.oid ∧ p.slot = q.slot

/-- What the extended operations with an address do. -/
structure ExtendedWalk (w : World) (k : Key) (m : Message) : Prop where
  /-- No number of rounds beyond the number of values of `l2v` changes where the loop ends. -/
  ends : ∀ fuel write, l2vMask.toNat + 1 ≤ fuel →
    walkFrom w.nodes write fuel k m.w1 0 (l2vMask.toNat + 1) = walk w.nodes write k m.w1
  decreases : ∀ p, lookupAt w k m = .ok p → (p.keys.map (l2vOf w.contents)).Pairwise (· > ·)
  fetch : walkExtended k m false w = .done (fetched w.contents (lookupAt w k m)) w
  /-- Where there is no place, or writing is forbidden, nothing is swapped. -/
  refused : (∀ p, lookupAt w k m = .ok p → p.Restricted) →
    ∃ code, code ≠ .ok ∧ walkExtended k m true w = .done (.ret code 0 none) w
  /-- Otherwise a swap completes unless it has to wait, or finds the node in a state that it can be in
  during a checkpoint only. -/
  completes : ∀ p, lookupAt w k m = .ok p → ¬p.Restricted → w.canDirty p.oid →
    ((w.nodes p.oid).kro → w.ckptActive) → ∃ r w', walkExtended k m true w = .done r w'
  /-- A swap that completes stores the key, which a fetch returns from then on, and every fetch that does
  not come from that slot is answered as before. -/
  swap : ∀ p, lookupAt w k m = .ok p → ¬p.Restricted → ∀ r w', walkExtended k m true w = .done r w' →
    r = fetched w.contents (.ok p) ∧
      (∀ m', m'.w1 = m.w1 → walkExtended k m' false w' = .done (.ret .ok 0 (some m.key0)) w') ∧
      ∀ k' m', (∀ q, lookupAt w k' m' = .ok q → ¬q.SameSlot p) →
        walkExtended k' m' false w' = .done (fetched w.contents (lookupAt w k' m')) w'

theorem restricted_iff (p : Place) : p.Restricted ↔ Forbidden 0 p.keys := by
  have hzero : ¬((0 : BitVec 5) &&& nodeReadOnly ≠ 0) := by decide
  unfold Place.Restricted Forbidden
  -- the two restrictions are one bit
  rw [or_iff_right hzero]
  exact exists_congr fun k => and_congr_right fun _ => or_self_iff

theorem walk_follows (w : World) (write : Bool) (k : Key) (m : Message) :
    Follows write 0 (lookupAt w k m) (walk w.nodes write k m.w1) :=
  walkFrom_follows w.nodes write k m.w1 0 (by decide) (by decide)

theorem fetch_eq (w : World) (k : Key) (m : Message) :
    walkExtended k m false w = .done (fetched w.contents (lookupAt w k m)) w := by
  have h := walk_follows w false k m
  rw [walkExtended, bind_apply, get_apply, andThen_done]
  cases hr : lookupAt w k m with
  | error e =>
      rw [hr] at h
      obtain hfault | ⟨hwrite, -⟩ := h
      · rw [hfault]
        rfl
      · cases hwrite
  | ok p =>
      rw [hr] at h
      have hfound : walk w.nodes false k m.w1 = .found p.oid p.slot := h.trans (if_neg (by simp))
      rw [hfound]
      rfl

theorem lookup_error (h : lookup contents bound k addr = .error e) : e = .noAddr ∨ e = .nondecreasing := by
  induction bound using Nat.strong_induction_on generalizing k addr with
  | _ bound ih =>
    rw [lookup] at h
    split at h
    · exact .inl (Except.error.inj h).symm
    split at h
    · exact .inl (Except.error.inj h).symm
    dsimp only at h
    split at h
    · rename_i hlt
      split at h
      · split at h
        · cases h
        · split at h
          · exact ih _ hlt (map_via_eq_error h)
          · exact .inl (Except.error.inj h).symm
      · exact .inl (Except.error.inj h).symm
    · exact .inr (Except.error.inj h).symm

theorem walk_fault (h : ∀ p, lookupAt w k m = .ok p → p.Restricted) :
    ∃ code, code ≠ .ok ∧ walk w.nodes true k m.w1 = .fault code := by
  have hfollows := walk_follows w true k m
  cases hr : lookupAt w k m with
  | error e =>
      have hne : e ≠ .ok := by
        rcases lookup_error hr with rfl | rfl
        · decide
        · decide
      rw [hr] at hfollows
      obtain hfault | ⟨-, hfault⟩ := hfollows
      · exact ⟨e, hne, hfault⟩
      · exact ⟨.noAccess, by decide, hfault⟩
  | ok p =>
      rw [hr] at hfollows
      exact ⟨.noAccess, by decide, hfollows.trans (if_pos ⟨rfl, (restricted_iff p).1 (h p hr)⟩)⟩

theorem walk_found (h : lookupAt w k m = .ok p) (hp : ¬p.Restricted) :
    walk w.nodes true k m.w1 = .found p.oid p.slot := by
  have hfollows := walk_follows w true k m
  rw [h] at hfollows
  exact hfollows.trans (if_neg fun hno => hp ((restricted_iff p).2 hno.2))

theorem walkExtended_of_found (h : walk w.nodes write k m.w1 = .found oid slot) :
    walkExtended k m write w =
      (if write then swapSlot oid slot m.key0 else answerKey ((w.nodes oid).content.slots slot)) w := by
  rw [walkExtended, bind_apply, get_apply, andThen_done, h]

theorem foldl_cleanKRO_contents (l : List ℕ) (w : World) : (l.foldl World.cleanKRO w).contents = w.contents := by
  induction l generalizing w with
  | nil => rfl
  | cons o l ih =>
      rw [List.foldl_cons, ih]
      ext1 o'
      exact cleanKRO_content w o'

theorem setDirty_contents (w : World) (oid : ℕ) : (w.setDirty oid).contents = w.contents := by
  ext1 o
  unfold World.contents World.setDirty
  by_cases ho : o = oid
  · subst ho
    simp only [update_self]
  · simp only [update_of_ne ho]

theorem ensureWritable_contents (h : ensureWritable oid w = .done () w') : w'.contents = w.contents := by
  unfold ensureWritable at h
  split at h
  · cases h
    rfl
  split at h
  · cases h
  split at h
  · cases h
    rw [setDirty_contents]
    split
    · exact foldl_cleanKRO_contents _ _
    · rfl
  · cases h

theorem ensureWritable_done (hdirty : w.canDirty oid) (hkro : (w.nodes oid).kro → w.ckptActive) :
    ∃ w', ensureWritable oid w = .done () w' := by
  unfold ensureWritable
  split
  · exact ⟨_, rfl⟩
  · have hno : ¬((!w.ckptActive) = true ∧ (w.nodes oid).kro = true) := by
      rintro ⟨hinactive, hk⟩
      simp [hkro hk] at hinactive
    simp only [hno, if_false]
    exact ⟨_, rfl⟩

theorem setContent_contents (w : World) (oid : ℕ) (slot : Fin 32) (k : Key) :
    (w.setContent oid ((w.contents oid).setSlot slot k)).contents = store w.contents oid slot k := by
  ext1 o
  unfold World.setContent World.contents store
  by_cases ho : o = oid
  · subst ho
    simp only [update_self]
  · simp only [update_of_ne ho]

theorem swapSlot_done {r : Reply} (h : swapSlot oid slot k w = .done r w') :
    r = .ret .ok 0 (some ((w.contents oid).slots slot)) ∧ w'.contents = store w.contents oid slot k := by
  rw [swapSlot, bind_apply] at h
  cases hw : ensureWritable oid w with
  | yield w₁ | halt e w₁ =>
      rw [hw] at h
      cases h
  | done u w₁ =>
      have hcontents := ensureWritable_contents hw
      rw [hw] at h
      change Outcome.done (Reply.ret .ok 0 (some ((w₁.contents oid).slots slot)))
        (w₁.setContent oid ((w₁.contents oid).setSlot slot k)) = _ at h
      cases h
      rw [setContent_contents, hcontents]
      exact ⟨rfl, rfl⟩

theorem swapSlot_completes (hdirty : w.canDirty oid) (hkro : (w.nodes oid).kro → w.ckptActive) (slot : Fin 32)
    (k : Key) : ∃ r w', swapSlot oid slot k w = .done r w' := by
  obtain ⟨w₁, hw⟩ := ensureWritable_done hdirty hkro
  rw [swapSlot, bind_apply, hw]
  exact ⟨_, _, rfl⟩

theorem store_self (contents : ℕ → NodeContent) (oid : ℕ) (slot : Fin 32) (k : Key) :
    (store contents oid slot k oid).slots slot = k := by
  simp only [store, NodeContent.setSlot, update_self]

theorem store_of_ne (h : ¬q.SameSlot p) (k : Key) :
    (store contents p.oid p.slot k q.oid).slots q.slot = (contents q.oid).slots q.slot := by
  unfold store
  by_cases ho : q.oid = p.oid
  · have hslot : q.slot ≠ p.slot := fun hs => h ⟨ho, hs⟩
    rw [ho, update_self]
    simp only [NodeContent.setSlot, update_of_ne hslot]
  · rw [update_of_ne ho]

theorem lookupAt_store (h : lookupAt w k m = .ok p) {key : Key}
    (hw' : w'.contents = store w.contents p.oid p.slot key) (k' : Key) (m' : Message) :
    lookupAt w' k' m' = lookupAt w k' m' := by
  rw [lookupAt, hw', lookup_store (lookup_l2v h)]
  rfl

/-- What `WalkExtended` does with any key and any address in any graph of nodes. -/
theorem walkExtended_spec (w : World) (k : Key) (m : Message) : ExtendedWalk w k m where
  ends := by
    intro fuel write hfuel
    exact walkFrom_fuel hfuel (by decide) (by decide)
  decreases p hp := (lookup_decreases hp).1
  fetch := fetch_eq w k m
  refused := by
    intro h
    obtain ⟨code, hcode, hfault⟩ := walk_fault h
    refine ⟨code, hcode, ?_⟩
    rw [walkExtended, bind_apply, get_apply, andThen_done, hfault]
    rfl
  completes := by
    intro p hp hres hdirty hkro
    rw [walkExtended_of_found (walk_found hp hres)]
    exact swapSlot_completes hdirty hkro p.slot m.key0
  swap := by
    intro p hp hres r w' hswap
    rw [walkExtended_of_found (walk_found hp hres)] at hswap
    obtain ⟨hr, hw'⟩ := swapSlot_done hswap
    refine ⟨hr, ?_, ?_⟩
    · intro m' hm'
      have hsame : lookupAt w' k m' = .ok p := by
        rw [lookupAt_store hp hw', lookupAt, hm']
        exact hp
      rw [fetch_eq, hsame, fetched, hw', store_self]
    · intro k' m' hother
      rw [fetch_eq, lookupAt_store hp hw']
      cases hq : lookupAt w k' m' with
      | error e => rfl
      | ok q => rw [fetched, fetched, hw', store_of_ne (hother q hq)]

end CapROS.NodeKey
