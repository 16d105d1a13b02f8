import Mathlib.Data.List.Chain
import Mathlib.Data.List.Nodup
import Mathlib.Data.List.Perm.Basic

/-!
# Rings and stacks of linked nodes

Circular doubly linked lists and singly linked stacks, as nodes with links. A ring is given by the
list of its nodes from the head on. A new node comes after the head. When the head is taken out,
the last node becomes the head.
-/

namespace LinkedRing

open Function (update update_self update_apply)

variable {α : Type*}

/-- The node `b` comes after `a`. -/
def Joined (next prev : α → α) (a b : α) : Prop := next a = b ∧ prev b = a

/-- The nodes `xs` form a ring, in this order. -/
structure Ring (next prev : α → α) (xs : List α) : Prop where
  nodup : xs.Nodup
  joined : ∀ h ∈ xs.head?, List.IsChain (Joined next prev) (xs ++ [h])

variable {next prev next' prev' : α → α} {xs : List α} {a b h n : α}

/-- Only the links from a node to the one after it, and back, matter. -/
theorem isChain_joined_congr (hc : List.IsChain (Joined next prev) xs)
    (hnext : ∀ a ∈ xs.dropLast, next' a = next a) (hprev : ∀ b ∈ xs.tail, prev' b = prev b) :
    List.IsChain (Joined next' prev') xs := by
  induction xs with
  | nil => exact .nil
  | cons a xs ih =>
    cases xs with
    | nil => exact .singleton a
    | cons b xs =>
      obtain ⟨⟨hn, hp⟩, hrest⟩ := List.isChain_cons_cons.1 hc
      have hna : next' a = next a := hnext a (by simp)
      have hpb : prev' b = prev b := hprev b (by simp)
      refine List.isChain_cons_cons.2 ⟨⟨hna.trans hn, hpb.trans hp⟩, ih hrest ?_ ?_⟩
      · intro c hc
        exact hnext c (by simp [hc])
      · intro c hc
        exact hprev c (List.mem_of_mem_tail hc)

theorem Ring.nil : Ring next prev [] := ⟨.nil, by simp⟩

variable {xs ys : List α}

theorem ring_cons :
    Ring next prev (h :: xs) ↔ (h :: xs).Nodup ∧ List.IsChain (Joined next prev) (h :: xs ++ [h]) :=
  ⟨fun hr => ⟨hr.nodup, hr.joined h rfl⟩, fun hr => ⟨hr.1, by rintro _ ⟨⟩; exact hr.2⟩⟩

/-- A ring depends only on the links of its nodes. -/
theorem Ring.congr (hr : Ring next prev xs) (hnext : ∀ a ∈ xs, next' a = next a)
    (hprev : ∀ a ∈ xs, prev' a = prev a) : Ring next' prev' xs := by
  refine ⟨hr.nodup, fun h hh => isChain_joined_congr (hr.joined h hh) ?_ ?_⟩
  · intro a ha
    rw [List.dropLast_concat] at ha
    exact hnext a ha
  · intro a ha
    have hmem := List.mem_of_mem_tail ha
    rw [List.mem_append, List.mem_singleton] at hmem
    rcases hmem with hmem | rfl
    · exact hprev a hmem
    · exact hprev a (List.mem_of_mem_head? hh)

/-- Every node of a ring may be taken as its head. -/
theorem Ring.rotate (hr : Ring next prev (xs ++ ys)) : Ring next prev (ys ++ xs) := by
  match xs, ys with
  | [], ys => simpa using hr
  | a :: xs, [] => simpa using hr
  | a :: xs, b :: ys =>
    have hc := (ring_cons.1 hr).2
    have hc' : List.IsChain (Joined next prev) ((a :: xs) ++ b :: (ys ++ [a])) := by simpa using hc
    obtain ⟨hc₁, hc₂⟩ := List.isChain_split.1 hc'
    have hn' : ((b :: ys) ++ (a :: xs)).Nodup := List.nodup_append_comm.1 hr.nodup
    refine ring_cons.2 ⟨hn', ?_⟩
    have : List.IsChain (Joined next prev) ((b :: ys) ++ a :: (xs ++ [b])) :=
      List.isChain_split.2 ⟨by simpa using hc₂, by simpa using hc₁⟩
    simpa using this

/-! ## Reading the links -/

theorem Ring.next_mid (xs : List α) (hr : Ring next prev (xs ++ a :: b :: ys)) :
    next a = b ∧ prev b = a := by
  have hr' := hr.rotate
  rw [List.cons_append] at hr'
  exact (List.isChain_cons_cons.1 (ring_cons.1 hr').2).1

theorem Ring.next_last (xs : List α) (hr : Ring next prev (h :: xs ++ [a])) :
    next a = h ∧ prev h = a := by
  have hr' := hr.rotate
  exact (List.isChain_cons_cons.1 (ring_cons.1 hr').2).1

theorem Ring.next_single (hr : Ring next prev [a]) : next a = a ∧ prev a = a :=
  (List.isChain_cons_cons.1 (ring_cons.1 hr).2).1

/-- The nodes before and after `a`, when `a` is taken as the head. -/
theorem Ring.next_head (hr : Ring next prev (a :: xs)) :
    next a = xs.headD a ∧ prev a = xs.getLastD a := by
  rcases List.eq_nil_or_concat xs with rfl | ⟨ys, b, rfl⟩
  · exact hr.next_single
  · refine ⟨?_, ?_⟩
    · cases ys with
      | nil | cons c ys => exact (hr.next_mid []).1
    · rw [List.concat_eq_append] at hr
      have hb := (hr.next_last ys).2
      simpa [List.getLastD_eq_getLast?] using hb

section Members

variable (hr : Ring next prev xs) (ha : a ∈ xs)
include hr ha

theorem Ring.exists_head :
    ∃ ys, Ring next prev (a :: ys) ∧ List.Perm (a :: ys) xs := by
  obtain ⟨l, r, rfl⟩ := List.append_of_mem ha
  exact ⟨r ++ l, by simpa using hr.rotate, by simpa using @List.perm_append_comm _ (a :: r) l⟩

theorem Ring.next_mem : next a ∈ xs := by
  obtain ⟨ys, hy, hp⟩ := hr.exists_head ha
  rw [← hp.mem_iff, hy.next_head.1]
  cases ys <;> simp

theorem Ring.prev_mem : prev a ∈ xs := by
  obtain ⟨ys, hy, hp⟩ := hr.exists_head ha
  rw [← hp.mem_iff, hy.next_head.2]
  rcases List.eq_nil_or_concat ys with rfl | ⟨zs, b, rfl⟩ <;> simp

/-- A node that comes after itself is alone. -/
theorem Ring.next_eq_self : next a = a ↔ xs = [a] := by
  constructor
  · intro he
    obtain ⟨ys, hy, hp⟩ := hr.exists_head ha
    cases ys with
    | nil => exact List.perm_singleton.1 hp.symm
    | cons b ys =>
      have hb : next a = b := hy.next_head.1
      have := hy.nodup
      rw [← hb, he] at this
      simp at this
  · rintro rfl
    exact hr.next_single.1

end Members

/-- The links determine the order of the nodes. -/
theorem Ring.unique (hx : Ring next prev (h :: xs)) (hy : Ring next prev (h :: ys)) :
    xs = ys := by
  have hxs := (List.nodup_cons.1 hx.nodup).1
  have hys := (List.nodup_cons.1 hy.nodup).1
  have hcx := (ring_cons.1 hx).2
  have hcy := (ring_cons.1 hy).2
  -- two walks from one node to the head
  suffices hwalk : ∀ (a : α) (ys : List α), h ∉ ys → List.IsChain (Joined next prev) (a :: xs ++ [h]) →
      List.IsChain (Joined next prev) (a :: ys ++ [h]) → xs = ys from hwalk h ys hys hcx hcy
  clear hcx hcy hx hy
  induction xs with
  | nil =>
    intro a ys hys hcx hcy
    cases ys with
    | nil => rfl
    | cons c ys =>
      have hah : next a = h := (List.isChain_cons_cons.1 hcx).1.1
      have hac : next a = c := (List.isChain_cons_cons.1 hcy).1.1
      exact absurd (hah.symm.trans hac) (by simp_all)
  | cons b xs ih =>
    intro a ys hys hcx hcy
    have hab : next a = b := (List.isChain_cons_cons.1 hcx).1.1
    cases ys with
    | nil =>
      have hah : next a = h := (List.isChain_cons_cons.1 hcy).1.1
      exact absurd (hah.symm.trans hab) (by simp_all)
    | cons c ys =>
      have hac : next a = c := (List.isChain_cons_cons.1 hcy).1.1
      obtain rfl : b = c := hab.symm.trans hac
      rw [ih (fun hm => hxs (List.mem_cons_of_mem _ hm)) b ys (fun hm => hys (List.mem_cons_of_mem _ hm))
        (List.isChain_cons_cons.1 hcx).2 (List.isChain_cons_cons.1 hcy).2]

/-! ## Putting a node in -/

/-- The new node comes after the head. -/
def link (n : α) : List α → List α
  | [] => [n]
  | h :: xs => h :: n :: xs

theorem perm_link (n : α) (xs : List α) : (link n xs).Perm (n :: xs) := by
  cases xs with
  | nil => exact .refl _
  | cons h xs => exact .swap _ _ _

theorem mem_link : a ∈ link n xs ↔ a = n ∨ a ∈ xs := by
  rw [(perm_link n xs).mem_iff, List.mem_cons]

@[simp]
theorem length_link : (link n xs).length = xs.length + 1 := (perm_link n xs).length_eq

section Update

variable [DecidableEq α]

theorem ring_self (next prev : α → α) (n : α) :
    Ring (update next n n) (update prev n n) [n] :=
  ring_cons.2 ⟨by simp, by simp [Joined]⟩

variable {xs l r : List α}

/-- A node is put in after the head. -/
theorem Ring.link (hr : Ring next prev (h :: xs)) (hn : n ∉ h :: xs) :
    Ring (update (update next n (next h)) h n)
      (update (update prev (next h) n) n h) (link n (h :: xs)) := by
  obtain ⟨hnodup, hc⟩ := ring_cons.1 hr
  have hnh : n ≠ h := fun he => hn (by simp [he])
  have hnx : n ∉ xs := fun he => hn (by simp [he])
  have hhx : h ∉ xs := (List.nodup_cons.1 hnodup).1
  have hnodup' : (xs ++ [h]).Nodup := by simpa using List.nodup_append_comm.1 hnodup
  obtain ⟨f, r, hfr⟩ : ∃ f r, xs ++ [h] = f :: r := List.exists_cons_of_ne_nil (by simp)
  rw [List.cons_append, hfr] at hc
  obtain ⟨⟨hnf, hpf⟩, hc'⟩ := List.isChain_cons_cons.1 hc
  have hf : f ∈ xs ++ [h] := by simp [hfr]
  have hfn : f ≠ n := by
    rintro rfl
    simp only [List.mem_append, List.mem_singleton] at hf
    exact hf.elim hnx hnh
  refine ring_cons.2 ⟨List.nodup_cons.2 ⟨?_, ?_⟩, ?_⟩
  · simp [hnh.symm, hhx]
  · exact List.nodup_cons.2 ⟨hnx, (List.nodup_cons.1 hnodup).2⟩
  · rw [List.cons_append, List.cons_append, hfr]
    refine List.isChain_cons_cons.2 ⟨⟨by simp, by simp⟩, List.isChain_cons_cons.2 ⟨⟨?_, ?_⟩, ?_⟩⟩
    · simp [hnh, hnf]
    · simp [hfn, hnf]
    · rw [hnf]
      refine isChain_joined_congr hc' ?_ ?_
      · intro a ha
        rw [← hfr, List.dropLast_concat] at ha
        have h₁ : a ≠ h := fun he => hhx (he ▸ ha)
        have h₂ : a ≠ n := fun he => hnx (he ▸ ha)
        simp [h₁, h₂]
      · intro b hb
        have h₁ : b ≠ f := by
          rintro rfl
          rw [hfr] at hnodup'
          exact (List.nodup_cons.1 hnodup').1 hb
        have h₂ : b ≠ n := by
          rintro rfl
          have : b ∈ xs ++ [h] := by rw [hfr]; exact List.mem_cons_of_mem _ hb
          simp only [List.mem_append, List.mem_singleton] at this
          exact this.elim hnx hnh
        simp [h₁, h₂]

/-! ## Taking a node out -/

/-- The list with its last element first. -/
def lastFirst (xs : List α) : List α := xs.getLast?.toList ++ xs.dropLast

omit [DecidableEq α] in
theorem lastFirst_concat (xs : List α) (a : α) : lastFirst (xs ++ [a]) = a :: xs := by
  simp [lastFirst]

/-- The node is taken out. If it is the head, the last node becomes the head. -/
def unlink (n : α) : List α → List α
  | [] => []
  | h :: xs => if h = n then lastFirst xs else h :: xs.erase n

theorem perm_unlink (n : α) (xs : List α) : (unlink n xs).Perm (xs.erase n) := by
  cases xs with
  | nil => exact .refl _
  | cons h xs =>
    rw [unlink]
    split_ifs with he
    · subst he
      rw [List.erase_cons_head]
      rcases List.eq_nil_or_concat xs with rfl | ⟨ys, b, rfl⟩
      · exact .refl _
      · rw [List.concat_eq_append, lastFirst_concat]
        exact @List.perm_append_comm _ [b] _
    · rw [List.erase_cons_tail (by simpa using he)]

theorem mem_unlink (hn : xs.Nodup) : a ∈ unlink n xs ↔ a ≠ n ∧ a ∈ xs := by
  rw [(perm_unlink n xs).mem_iff, hn.mem_erase_iff]

theorem length_unlink (hn : n ∈ xs) : (unlink n xs).length = xs.length - 1 := by
  rw [(perm_unlink n xs).length_eq, List.length_erase_of_mem hn]

/-- The links after `n` has been taken out. -/
theorem Ring.tail (hr : Ring next prev (n :: xs)) :
    Ring (update (update next (prev n) (next n)) n n)
      (update (update prev (next n) (prev n)) n n) xs := by
  obtain ⟨hnodup, hc⟩ := ring_cons.1 hr
  obtain ⟨hnx, hxs⟩ := List.nodup_cons.1 hnodup
  match xs with
  | [] => exact .nil
  | a :: ys =>
    obtain ⟨m, z, hz⟩ : ∃ m z, a :: ys = m ++ [z] :=
      ⟨(a :: ys).dropLast, (a :: ys).getLast (by simp), (List.dropLast_append_getLast _).symm⟩
    have hna : next n = a := (hr.next_mid []).1
    have hpz : prev n = z := by
      rw [hz] at hr
      exact (hr.next_last _).2
    have hzn : z ≠ n := by
      rintro rfl
      exact hnx (by simp [hz])
    have han : a ≠ n := fun he => hnx (by simp [he])
    have hc' : List.IsChain (Joined next prev) (a :: ys) := by
      have h₁ := (List.isChain_cons_cons.1 hc).2
      have h₂ : List.IsChain (Joined next prev) ((a :: ys) ++ [n]) := h₁
      exact h₂.left_of_append
    refine ring_cons.2 ⟨hxs, ?_⟩
    have hnew : List.IsChain (Joined (update (update next (prev n) (next n)) n n)
        (update (update prev (next n) (prev n)) n n)) (a :: ys) := by
      refine isChain_joined_congr hc' ?_ ?_
      · intro b hb
        have h₁ : b ≠ z := by
          rintro rfl
          rw [hz, List.dropLast_concat] at hb
          rw [hz] at hxs
          exact (List.nodup_append'.1 hxs).2.2 hb (by simp)
        have h₂ : b ≠ n := fun he => hnx (he ▸ List.dropLast_subset _ hb)
        simp [h₁, h₂, hpz]
      · intro b hb
        have h₁ : b ≠ a := fun he => (List.nodup_cons.1 hxs).1 (he ▸ hb)
        have h₂ : b ≠ n := fun he => hnx (he ▸ List.mem_of_mem_tail hb)
        simp [h₁, h₂, hna]
    rw [hz] at hnew ⊢
    have hlast : List.IsChain (Joined (update (update next (prev n) (next n)) n n)
        (update (update prev (next n) (prev n)) n n)) (z :: [a]) :=
      List.isChain_cons_cons.2 ⟨⟨by simp [hzn, hpz, hna], by simp [han, hna, hpz]⟩, .singleton _⟩
    simpa using List.isChain_split.2 ⟨hnew, hlast⟩

/-- A node is taken out of the ring. -/
theorem Ring.unlink (hr : Ring next prev xs) (hn : n ∈ xs) :
    Ring (update (update next (prev n) (next n)) n n)
      (update (update prev (next n) (prev n)) n n) (unlink n xs) := by
  match xs with
  | h :: xs =>
    rw [LinkedRing.unlink]
    split_ifs with he
    · subst he
      have ht := hr.tail
      rcases List.eq_nil_or_concat xs with rfl | ⟨ys, b, rfl⟩
      · exact .nil
      · rw [List.concat_eq_append] at ht ⊢
        rw [lastFirst_concat]
        exact ht.rotate
    · have hnx : n ∈ xs := (List.mem_cons.1 hn).resolve_left fun h => he h.symm
      obtain ⟨l, r, rfl⟩ := List.append_of_mem hnx
      have hl : n ∉ l := by
        have := (List.nodup_cons.1 hr.nodup).2
        rw [List.nodup_append_comm, List.cons_append, List.nodup_cons] at this
        exact fun hm => this.1 (by simp [hm])
      have hrot : Ring next prev (n :: (r ++ h :: l)) := by
        have := Ring.rotate (show Ring next prev ((h :: l) ++ (n :: r)) from hr)
        simpa using this
      have ht := hrot.tail.rotate
      rw [List.erase_append_right _ hl, List.erase_cons_head]
      exact ht

/-! ## Changes at any place -/

/-- A node is put in after `a`. -/
theorem Ring.insertAfter (hr : Ring next prev (l ++ a :: r)) (hn : n ∉ l ++ a :: r) :
    Ring (update (update next a n) n (next a))
      (update (update prev (next a) n) n a) (l ++ a :: n :: r) := by
  have hrot : Ring next prev (a :: (r ++ l)) := by simpa using hr.rotate
  have hn' : n ∉ a :: (r ++ l) := by
    simp only [List.mem_append, List.mem_cons, not_or] at hn ⊢
    exact ⟨hn.2.1, hn.2.2, hn.1⟩
  have hna : n ≠ a := fun he => hn' (by simp [he])
  have hlink : Ring (update (update next n (next a)) a n)
      (update (update prev (next a) n) n a) ((a :: n :: r) ++ l) := by
    simpa [LinkedRing.link] using hrot.link hn'
  refine hlink.rotate.congr ?_ fun _ _ => rfl
  intro b _
  by_cases hb : b = n
  · subst hb
    simp [hna]
  · simp [hb, update_apply]

/-- A node is put in before `b`, which is not the head. -/
theorem Ring.insertBefore (hr : Ring next prev (l ++ b :: r)) (hl : l ≠ [])
    (hn : n ∉ l ++ b :: r) :
    Ring (update (update next (prev b) n) n b)
      (update (update prev b n) n (prev b)) (l ++ n :: b :: r) := by
  obtain ⟨l, a, rfl⟩ : ∃ m z, l = m ++ [z] :=
    ⟨l.dropLast, l.getLast hl, (List.dropLast_append_getLast hl).symm⟩
  have hr' : Ring next prev (l ++ a :: b :: r) := by simpa using hr
  obtain ⟨hnext, hprev⟩ := hr'.next_mid l
  have hins := hr'.insertAfter (by simpa using hn)
  rw [hnext] at hins
  rw [hprev]
  simpa using hins

/-- A node is taken out. -/
theorem Ring.remove (hr : Ring next prev (l ++ n :: r)) :
    Ring (update (update next (prev n) (next n)) n n)
      (update (update prev (next n) (prev n)) n n) (l ++ r) := by
  have hrot : Ring next prev (n :: (r ++ l)) := by simpa using hr.rotate
  exact hrot.tail.rotate

/-- A node takes the place of another, which is not alone. -/
theorem Ring.replace {m : α} (hr : Ring next prev (l ++ n :: r)) (hl : l ≠ [])
    (hm : m ∉ l ++ n :: r) :
    Ring (update (update next m (next n)) (prev n) m)
      (update (update prev m (prev n)) (next n) m) (l ++ m :: r) := by
  have hmn : m ≠ n := fun he => hm (by simp [he])
  have hnp : prev n ≠ n := by
    intro he
    have hmem : n ∈ l ++ n :: r := by simp
    obtain ⟨ys, hy, hp⟩ := hr.exists_head hmem
    have hys : prev n = ys.getLastD n := hy.next_head.2
    cases ys with
    | nil =>
      have hlen := hp.length_eq
      cases l with
      | nil => exact hl rfl
      | cons c l => simp at hlen
    | cons c ys =>
      obtain ⟨zs, z, hz⟩ : ∃ zs z, c :: ys = zs ++ [z] :=
        ⟨_, _, (List.dropLast_append_getLast (List.cons_ne_nil c ys)).symm⟩
      rw [hz] at hys hy
      have hzn : z = n := by simpa [List.getLastD_eq_getLast?, he] using hys.symm
      have hnot := (List.nodup_cons.1 hy.nodup).1
      exact hnot (by simp [hzn])
  have hmp : prev n ≠ m := by
    intro he
    exact hm (he ▸ hr.prev_mem (by simp))
  have hmx : next n ≠ m := by
    intro he
    exact hm (he ▸ hr.next_mem (by simp))
  -- The new node is put in before the old one, which is then taken out.
  have hins := hr.insertBefore hl hm
  rw [List.append_cons] at hins
  have hrem := hins.remove
  have hnot : n ∉ l ++ m :: r := by
    simpa using (List.nodup_cons.1 (List.nodup_middle.1 hins.nodup)).1
  have hprevn : update (update prev n m) m (prev n) n = m := by simp [hmn.symm]
  have hnextn : update (update next (prev n) m) m n n = next n := by
    simp [hmn.symm, hnp.symm]
  rw [List.append_assoc, List.singleton_append, hprevn, hnextn] at hrem
  refine hrem.congr ?_ ?_
  · intro c hc
    have hcn : c ≠ n := fun he => hnot (he ▸ hc)
    by_cases hcm : c = m
    · subst hcm
      simp [hcn, hmp.symm]
    · by_cases hcp : c = prev n
      · subst hcp
        simp [hcn, hcm]
      · simp [hcn, hcm, hcp]
  · intro c hc
    have hcn : c ≠ n := fun he => hnot (he ▸ hc)
    by_cases hcm : c = m
    · subst hcm
      simp [hcn, hmx.symm]
    · by_cases hcx : c = next n
      · subst hcx
        simp [hcn]
      · simp [hcn, hcm, hcx]

/-- The last nodes are cut off. -/
theorem Ring.truncate {ys : List α} {z : α} (hr : Ring next prev (h :: (xs ++ ys)))
    (hz : (h :: xs).getLast? = some z) :
    Ring (update next z h) (update prev h z) (h :: xs) := by
  obtain ⟨hnodup, hc⟩ := ring_cons.1 hr
  have hnodup' : (h :: xs).Nodup := (List.sublist_append_left (h :: xs) ys).nodup hnodup
  obtain ⟨m, hm⟩ := List.getLast?_eq_some_iff.1 hz
  have hzm : z ∉ m := by
    rw [hm] at hnodup'
    exact (List.nodup_cons.1 (List.nodup_middle.1 hnodup')).1 ∘ List.mem_append_left []
  have hchain : List.IsChain (Joined next prev) (h :: xs) := by
    have hsplit : List.IsChain (Joined next prev) ((h :: xs) ++ (ys ++ [h])) := by simpa using hc
    exact hsplit.left_of_append
  have hnew : List.IsChain (Joined (update next z h) (update prev h z)) (h :: xs) := by
    refine isChain_joined_congr hchain ?_ ?_
    · intro a ha
      rw [hm, List.dropLast_concat] at ha
      have haz : a ≠ z := fun he => hzm (he ▸ ha)
      simp [haz]
    · intro b hb
      have hbh : b ≠ h := fun he => (List.nodup_cons.1 hnodup').1 (he ▸ hb)
      simp [hbh]
  refine ring_cons.2 ⟨hnodup', ?_⟩
  rw [hm] at hnew ⊢
  have hlast : List.IsChain (Joined (update next z h) (update prev h z)) (z :: [h]) :=
    List.isChain_cons_cons.2 ⟨⟨by simp, by simp⟩, .singleton _⟩
  simpa using List.isChain_split.2 ⟨hnew, hlast⟩

end Update

/-! ## Stacks -/

/-- The links from `a` on form a stack with the nodes `xs`, and `z` is the end. -/
def Stack (next : α → α) (z : α) : α → List α → Prop
  | a, [] => a = z
  | a, x :: xs => a = x ∧ x ≠ z ∧ Stack next z (next x) xs

variable {z : α}

variable {a : α}

theorem Stack.congr (hs : Stack next z a xs)
    (hnext : ∀ x ∈ xs, next' x = next x) : Stack next' z a xs := by
  induction xs generalizing a with
  | nil => exact hs
  | cons x xs ih =>
    obtain ⟨rfl, hx, hrest⟩ := hs
    refine ⟨rfl, hx, ?_⟩
    rw [hnext a (by simp)]
    exact ih hrest fun y hy => hnext y (by simp [hy])

theorem Stack.ne_end (hs : Stack next z a xs) : a ≠ z ↔ xs ≠ [] := by
  cases xs with
  | nil => simpa using (show a = z from hs)
  | cons x xs => simpa [hs.1] using hs.2.1

theorem Stack.mem (hs : Stack next z a xs) (ha : a ≠ z) : a ∈ xs := by
  cases xs with
  | nil => exact absurd hs ha
  | cons x xs => exact hs.1 ▸ List.mem_cons_self

/-- A node is pushed. -/
theorem Stack.push [DecidableEq α] (hs : Stack next z a xs) (hn : n ∉ xs)
    (hz : n ≠ z) : Stack (update next n a) z n (n :: xs) := by
  refine ⟨rfl, hz, ?_⟩
  rw [update_self]
  refine hs.congr fun x hx => ?_
  have : x ≠ n := fun he => hn (he ▸ hx)
  simp [this]

end LinkedRing
