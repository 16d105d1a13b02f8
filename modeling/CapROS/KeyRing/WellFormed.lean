import CapROS.KeyRing.Basic
import CapROS.Theory.LinkedRing

/-!
# Key rings are well-formed

Each prepared object key is linked once, on the ring of the object it designates. On the ring of a
process the Resume keys come last, that is, on the `prev` side of the header.
-/

namespace CapROS.KeyRing

open LinkedRing
open Function (update update_self update_of_ne update_eq_self)

/-- The header of a ring. -/
def Loc.IsHeader (l : Loc) : Prop := ∀ k, l ≠ .key k

theorem isHeader_obj (o : ℕ) : (Loc.obj o).IsHeader := fun _ h => by cases h

theorem isHeader_proc (p : ℕ) : (Loc.proc p).IsHeader := fun _ h => by cases h

/-- The key is prepared, and the header is that of its object. -/
def OnRing (s : State) (k : ℕ) (header : Loc) : Prop :=
  (s.key k).isPreparedObjectKey = true ∧ (s.key k).u = .ok header

/-- A key to a process designates a process, and other object keys an object. -/
def KeyBits.Suits (key : KeyBits) : Loc → Prop
  | .obj _ => key.isProcessType = false
  | .proc _ => key.isProcessType = true
  | .key _ => False

/-- After a Resume key come only Resume keys. -/
def ResumeLast (s : State) (xs : List ℕ) : Prop :=
  xs.Pairwise fun i j => (s.key i).keyType = .resume → (s.key j).keyType = .resume

/-- The invariant, for the keys on each ring from the `next` side of the header on. -/
structure Inv (s : State) (ring : Loc → List ℕ) : Prop where
  links : ∀ header : Loc, header.IsHeader → Ring s.next s.prev (header :: (ring header).map .key)
  mem : ∀ header : Loc, header.IsHeader → ∀ k, k ∈ ring header ↔ OnRing s k header
  suits : ∀ k, (s.key k).isPreparedObjectKey = true → ∃ header, (s.key k).u = .ok header ∧
    (s.key k).Suits header
  resume : ∀ header : Loc, header.IsHeader → ResumeLast s (ring header)
  hazard : ∀ k, (s.key k).keyType = .resume → (s.key k).isHazard = false

variable {s s' : State} {ring : Loc → List ℕ} {k kb : ℕ} {header : Loc} {key : KeyBits} {xs l r : List ℕ}

theorem KeyBits.Suits.isHeader (h : key.Suits header) : header.IsHeader := by
  cases header with
  | obj o => exact isHeader_obj o
  | proc p => exact isHeader_proc p
  | key k => exact h.elim

theorem OnRing.unique {header' : Loc} (h : OnRing s k header) (h' : OnRing s k header') :
    header = header' :=
  Body.ok.inj (h.2.symm.trans h'.2)

theorem Inv.exists_onRing (h : Inv s ring) (hk : (s.key k).isPreparedObjectKey = true) :
    ∃ header : Loc, header.IsHeader ∧ OnRing s k header ∧ (s.key k).Suits header := by
  obtain ⟨header, hu, hsuits⟩ := h.suits k hk
  exact ⟨header, hsuits.isHeader, ⟨hk, hu⟩, hsuits⟩

theorem Inv.not_mem (h : Inv s ring) (hk : (s.key k).isPreparedObjectKey = false) (header : Loc)
    (hh : header.IsHeader) : k ∉ ring header := by
  rw [h.mem header hh, OnRing, hk]
  simp

theorem nodup_of_ring {next prev : Loc → Loc} (h : Ring next prev (header :: xs.map .key)) : xs.Nodup :=
  List.Nodup.of_map _ (List.nodup_cons.1 h.nodup).2

theorem Inv.modify {K : ℕ → Prop} (h : Inv s ring) (hh : header.IsHeader)
    (hkeys : ∀ j, ¬K j → s'.key j = s.key j)
    (hold : ∀ j, K j → ∀ header', OnRing s j header' → header' = header)
    (hnew : ∀ j, K j → (s'.key j).isPreparedObjectKey = true →
      (s'.key j).u = .ok header ∧ (s'.key j).Suits header)
    (hhazard : ∀ j, K j → (s'.key j).keyType = .resume → (s'.key j).isHazard = false)
    (hnext : ∀ l, (∀ j, K j → l ≠ .key j) → l ∉ header :: (ring header).map .key → s'.next l = s.next l)
    (hprev : ∀ l, (∀ j, K j → l ≠ .key j) → l ∉ header :: (ring header).map .key → s'.prev l = s.prev l)
    (hring : Ring s'.next s'.prev (header :: xs.map .key)) (hmem : ∀ j, j ∈ xs ↔ OnRing s' j header)
    (hres : ResumeLast s' xs) : Inv s' (update ring header xs) := by
  -- Nothing changes on another ring.
  have hother : ∀ header' : Loc, header'.IsHeader → header' ≠ header →
      (∀ j, OnRing s' j header' ↔ OnRing s j header') ∧ ∀ j ∈ ring header', ¬K j := by
    intro header' hh' hne
    have hk : ∀ j, OnRing s j header' → ¬K j := fun j hj hjk => hne (hold j hjk _ hj)
    refine ⟨fun j => ?_, fun j hj => hk j ((h.mem header' hh' j).1 hj)⟩
    by_cases hj : K j
    · constructor
      · intro hon
        exact absurd (Body.ok.inj (hon.2.symm.trans (hnew j hj hon.1).1)) hne
      · intro hon
        exact absurd hj (hk j hon)
    · unfold OnRing
      rw [hkeys j hj]
  constructor
  · intro header' hh'
    by_cases hne : header' = header
    · subst hne
      rw [update_self]
      exact hring
    · rw [update_of_ne hne]
      obtain ⟨-, hk⟩ := hother header' hh' hne
      have houtside : ∀ l ∈ header' :: (ring header').map .key, (∀ j, K j → l ≠ .key j) ∧
          l ∉ header :: (ring header).map .key := by
        intro l hl
        obtain rfl | hl := List.mem_cons.1 hl
        · refine ⟨fun j _ => hh' j, ?_⟩
          rw [List.mem_cons, not_or, List.mem_map]
          exact ⟨hne, fun ⟨j, _, hj⟩ => hh' j hj.symm⟩
        · obtain ⟨j, hj, rfl⟩ := List.mem_map.1 hl
          refine ⟨fun i hi he => hk j hj (Loc.key.inj he ▸ hi), ?_⟩
          rw [List.mem_cons, not_or, List.mem_map]
          refine ⟨fun he => hh j he.symm, ?_⟩
          rintro ⟨i, hi, hij⟩
          obtain rfl := Loc.key.inj hij
          exact hne (((h.mem header' hh' i).1 hj).unique ((h.mem header hh i).1 hi))
      exact (h.links header' hh').congr (fun l hl => hnext l (houtside l hl).1 (houtside l hl).2)
        fun l hl => hprev l (houtside l hl).1 (houtside l hl).2
  · intro header' hh' j
    by_cases hne : header' = header
    · subst hne
      rw [update_self]
      exact hmem j
    · rw [update_of_ne hne, (hother header' hh' hne).1 j]
      exact h.mem header' hh' j
  · intro j hj
    by_cases hjk : K j
    · exact ⟨header, hnew j hjk hj⟩
    · rw [hkeys j hjk] at hj ⊢
      exact h.suits j hj
  · intro header' hh'
    by_cases hne : header' = header
    · subst hne
      rw [update_self]
      exact hres
    · rw [update_of_ne hne]
      obtain ⟨-, hk⟩ := hother header' hh' hne
      refine (h.resume header' hh').imp_of_mem ?_
      intro i j hi hj hij
      rw [hkeys i (hk i hi), hkeys j (hk j hj)]
      exact hij
  · intro j hj
    by_cases hjk : K j
    · exact hhazard j hjk hj
    · rw [hkeys j hjk] at hj ⊢
      exact h.hazard j hj

theorem Inv.put (h : Inv s ring) (hk : (s.key k).isPreparedObjectKey = false)
    (hkey : key.isPreparedObjectKey = false) (hhazard : key.keyType = .resume → key.isHazard = false) :
    Inv (s.put k key) ring := by
  have hput : (s.put k key).key k = key := put_same s k key
  have hsame : ∀ j, j ≠ k → (s.put k key).key j = s.key j := fun j hj => put_other s key hj
  have hself : update ring (.obj 0) (ring (.obj 0)) = ring := update_eq_self _ ring
  rw [← hself]
  have hnot := h.not_mem hk (.obj 0) (isHeader_obj 0)
  refine h.modify (K := (· = k)) (isHeader_obj 0) hsame ?_ ?_ ?_ (fun _ _ _ => rfl) (fun _ _ _ => rfl)
    (h.links _ (isHeader_obj 0)) ?_ ?_
  · rintro j rfl header' hon
    rw [hon.1] at hk
    cases hk
  · rintro j rfl hc
    rw [hput, hkey] at hc
    cases hc
  · rintro j rfl
    rw [hput]
    exact hhazard
  · intro j
    rw [h.mem _ (isHeader_obj 0)]
    by_cases hj : j = k
    · subst hj
      simp [OnRing, hkey, hk]
    · unfold OnRing
      rw [hsame j hj]
  · refine (h.resume _ (isHeader_obj 0)).imp_of_mem ?_
    intro i j hi hj hij
    rw [hsame i fun he => hnot (he ▸ hi), hsame j fun he => hnot (he ▸ hj)]
    exact hij

theorem Inv.congr_ring {ring' : Loc → List ℕ} (h : Inv s ring)
    (hring : ∀ header : Loc, header.IsHeader → ring' header = ring header) : Inv s ring' where
  links header hh := by
    rw [hring header hh]
    exact h.links header hh
  mem header hh := by
    rw [hring header hh]
    exact h.mem header hh
  suits := h.suits
  resume header hh := by
    rw [hring header hh]
    exact h.resume header hh
  hazard := h.hazard

theorem Inv.congr (h : Inv s ring) (hnext : s'.next = s.next) (hprev : s'.prev = s.prev)
    (htype : ∀ k, (s'.key k).keyType = (s.key k).keyType)
    (hprep : ∀ k, (s'.key k).prepared = (s.key k).prepared) (hu : ∀ k, (s'.key k).u = (s.key k).u)
    (hhazard : ∀ k, (s'.key k).keyType = .resume → (s'.key k).isHazard = false) : Inv s' ring := by
  have hpok : ∀ k, (s'.key k).isPreparedObjectKey = (s.key k).isPreparedObjectKey := by
    intro k
    simp only [KeyBits.isPreparedObjectKey, KeyBits.isObjectKey, htype, hprep]
  constructor
  · rw [hnext, hprev]
    exact h.links
  · intro header hh k
    unfold OnRing
    rw [hpok, hu]
    exact h.mem header hh k
  · intro k hk
    rw [hpok] at hk
    obtain ⟨header, hk, hsuits⟩ := h.suits k hk
    refine ⟨header, (hu k).trans hk, ?_⟩
    cases header with
    | obj o | proc p => simpa only [KeyBits.Suits, KeyBits.isProcessType, htype] using hsuits
    | key k => exact hsuits
  · intro header hh
    refine (h.resume header hh).imp ?_
    intro i j hij
    rw [htype, htype]
    exact hij
  · exact hhazard

theorem Inv.drop (h : Inv s ring) (hkey : key.isPreparedObjectKey = false)
    (hhazard : key.keyType = .resume → key.isHazard = false) :
    Inv ((keyUnchain k s).put k key) fun header => (ring header).erase k := by
  by_cases hk : (s.key k).isPreparedObjectKey = true
  · obtain ⟨header, hh, hon, -⟩ := h.exists_onRing hk
    have hmem := (h.mem header hh k).2 hon
    have hring := h.links header hh
    have hnodup := nodup_of_ring hring
    obtain ⟨l, r, hlr⟩ := List.append_of_mem hmem
    have hput : ∀ j, j ≠ k → ((keyUnchain k s).put k key).key j = s.key j := by
      intro j hj
      rw [put_other _ _ hj]
      unfold keyUnchain
      rw [if_pos hk]
      rfl
    have hnot : k ∉ l ++ r := by
      rw [hlr] at hnodup
      exact (List.nodup_cons.1 (List.nodup_middle.1 hnodup)).1
    -- The nodes before and after the key are on the same ring.
    have hmk : Loc.key k ∈ header :: (ring header).map .key :=
      List.mem_cons_of_mem _ (List.mem_map.2 ⟨k, hmem, rfl⟩)
    have hp := hring.prev_mem hmk
    have hn := hring.next_mem hmk
    have hmodify : Inv ((keyUnchain k s).put k key) (update ring header (l ++ r)) := by
      refine h.modify (K := (· = k)) hh hput ?_ ?_ ?_ ?_ ?_ ?_ ?_ ?_
      · rintro j rfl header' hon'
        exact hon'.unique hon
      · rintro j rfl hc
        rw [put_same, hkey] at hc
        cases hc
      · rintro j rfl
        rw [put_same]
        exact hhazard
      · intro x hx hout
        have hxp : x ≠ s.prev (.key k) := fun he => hout (he ▸ hp)
        simp [State.put, keyUnchain, hk, linkUnlink, hx k rfl, hxp]
      · intro x hx hout
        have hxn : x ≠ s.next (.key k) := fun he => hout (he ▸ hn)
        simp [State.put, keyUnchain, hk, linkUnlink, hx k rfl, hxn]
      · rw [hlr, List.map_append, List.map_cons, ← List.cons_append] at hring
        have hrem := hring.remove
        rw [List.cons_append, ← List.map_append] at hrem
        unfold keyUnchain
        rw [if_pos hk]
        exact hrem
      · intro j
        by_cases hj : j = k
        · subst hj
          simp [OnRing, hkey, hnot]
        · have hiff := h.mem header hh j
          unfold OnRing at hiff ⊢
          rw [hput j hj, ← hiff, hlr]
          simp [hj]
      · have hres := h.resume header hh
        rw [hlr] at hres
        have hsub : (l ++ r).Sublist (l ++ k :: r) :=
          List.Sublist.append_left (List.sublist_cons_self k r) l
        refine (hres.sublist hsub).imp_of_mem ?_
        intro i j hi hj hij
        rw [hput i fun he => hnot (he ▸ hi), hput j fun he => hnot (he ▸ hj)]
        exact hij
    refine hmodify.congr_ring ?_
    intro header' hh'
    by_cases hne : header' = header
    · subst hne
      rw [update_self, hlr]
      rw [List.erase_append_right _ fun hl => hnot (List.mem_append_left r hl), List.erase_cons_head]
    · rw [update_of_ne hne, List.erase_of_not_mem]
      intro hm
      exact hne (((h.mem header' hh' k).1 hm).unique hon)
  · have hk' : (s.key k).isPreparedObjectKey = false := by simpa using hk
    unfold keyUnchain
    rw [if_neg hk]
    refine (h.put hk' hkey hhazard).congr_ring fun header hh => ?_
    exact List.erase_of_not_mem (h.not_mem hk' header hh)

theorem ResumeLast.insert {k : ℕ} (hsame : ∀ j ∈ l ++ r, s'.key j = s.key j) (h : ResumeLast s (l ++ r))
    (hleft : ∀ i ∈ l, (s.key i).keyType = .resume → (s'.key k).keyType = .resume)
    (hright : ∀ j ∈ r, (s'.key k).keyType = .resume → (s.key j).keyType = .resume) :
    ResumeLast s' (l ++ k :: r) := by
  have h : ResumeLast s' (l ++ r) := by
    refine h.imp_of_mem ?_
    intro i j hi hj hij
    rw [hsame i hi, hsame j hj]
    exact hij
  obtain ⟨hl, hr, hlr⟩ := List.pairwise_append.1 h
  refine List.pairwise_append.2 ⟨hl, List.pairwise_cons.2 ⟨?_, hr⟩, ?_⟩
  · intro j hj
    rw [hsame j (List.mem_append_right l hj)]
    exact hright j hj
  · intro i hi
    refine List.forall_mem_cons.2 ⟨?_, hlr i hi⟩
    rw [hsame i (List.mem_append_left r hi)]
    exact hleft i hi

theorem Inv.link (h : Inv s ring) (hk : (s.key k).isPreparedObjectKey = false) (hh : header.IsHeader)
    (hlr : ring header = l ++ r) {p : Loc} (hp : (header :: l.map Loc.key).getLast? = some p)
    (hkey : key.isPreparedObjectKey = true) (hu : key.u = .ok header) (hsuits : key.Suits header)
    (hleft : ∀ j ∈ l, (s.key j).keyType = .resume → key.keyType = .resume)
    (hright : ∀ j ∈ r, key.keyType = .resume → (s.key j).keyType = .resume)
    (hhazard : key.keyType = .resume → key.isHazard = false) :
    Inv ((linkInsertBetween (.key k) p (s.next p) s).put k key)
      (update ring header (l ++ k :: r)) := by
  have hring := h.links header hh
  have hnot : k ∉ l ++ r := by
    rw [← hlr]
    exact h.not_mem hk header hh
  have hput : ∀ j, j ≠ k → ((linkInsertBetween (.key k) p (s.next p) s).put k key).key j = s.key j :=
    fun j hj => put_other _ key hj
  obtain ⟨m, hm⟩ := List.getLast?_eq_some_iff.1 hp
  have hsplit : header :: (ring header).map Loc.key = m ++ p :: r.map Loc.key := by
    rw [hlr, List.map_append, ← List.cons_append, hm, List.append_assoc, List.singleton_append]
  have hpm : p ∈ header :: (ring header).map Loc.key := by
    rw [hsplit]
    simp
  have hnm := hring.next_mem hpm
  have hout : Loc.key k ∉ header :: (ring header).map Loc.key := by
    rw [hlr, List.mem_cons, not_or, List.mem_map]
    refine ⟨fun he => hh k he.symm, ?_⟩
    rintro ⟨j, hj, hjk⟩
    exact hnot (Loc.key.inj hjk ▸ hj)
  refine h.modify (K := (· = k)) hh hput ?_ ?_ ?_ ?_ ?_ ?_ ?_ ?_
  · rintro j rfl header' hon
    rw [hon.1] at hk
    cases hk
  · rintro j rfl _
    rw [put_same]
    exact ⟨hu, hsuits⟩
  · rintro j rfl
    rw [put_same]
    exact hhazard
  · intro x hx hx'
    have hxp : x ≠ p := fun he => hx' (he ▸ hpm)
    simp [State.put, linkInsertBetween, hx k rfl, hxp]
  · intro x hx hx'
    have hxn : x ≠ s.next p := fun he => hx' (he ▸ hnm)
    simp [State.put, linkInsertBetween, hx k rfl, hxn]
  · rw [hsplit] at hring hout
    have hins := hring.insertAfter hout
    rw [List.map_append, List.map_cons, ← List.cons_append, hm, List.append_assoc, List.singleton_append]
    exact hins
  · intro j
    by_cases hj : j = k
    · subst hj
      simp [OnRing, hkey, hu]
    · have hiff := h.mem header hh j
      unfold OnRing at hiff ⊢
      rw [hput j hj, ← hiff, hlr]
      simp [hj]
  · have hres := h.resume header hh
    rw [hlr] at hres
    have hold : ∀ j, j ∈ l ++ r → ((linkInsertBetween (.key k) p (s.next p) s).put k key).key j = s.key j :=
      fun j hj => hput j fun he => hnot (he ▸ hj)
    refine ResumeLast.insert hold hres ?_ ?_
    · intro i hi
      rw [put_same]
      exact hleft i hi
    · intro j hj
      rw [put_same]
      exact hright j hj

/-- The state after the links of `src` were given to `dst`. -/
def takePlace (dst src : ℕ) (s : State) : State :=
  { s with
    next := update (update s.next (.key dst) (s.next (.key src))) (s.prev (.key src)) (.key dst)
    prev := update (update s.prev (.key dst) (s.prev (.key src))) (s.next (.key src)) (.key dst) }

theorem ring_takePlace {dst src : ℕ} (hring : Ring s.next s.prev (header :: (l ++ src :: r).map .key))
    (hh : header.IsHeader) (hdst : dst ∉ l ++ src :: r) :
    Ring (takePlace dst src s).next (takePlace dst src s).prev (header :: (l ++ dst :: r).map .key) := by
  rw [List.map_append, List.map_cons, ← List.cons_append] at hring ⊢
  have hout : Loc.key dst ∉ (header :: l.map Loc.key) ++ Loc.key src :: r.map Loc.key := by
    rw [List.cons_append, ← List.map_cons, ← List.map_append, List.mem_cons, not_or, List.mem_map]
    refine ⟨fun he => hh dst he.symm, ?_⟩
    rintro ⟨j, hj, hjd⟩
    exact hdst (Loc.key.inj hjd ▸ hj)
  exact hring.replace (List.cons_ne_nil _ _) hout

theorem Inv.replace {dst src : ℕ} (h : Inv s ring) (hdst : (s.key dst).isPreparedObjectKey = false)
    (hon : OnRing s src header) (hh : header.IsHeader) (hsuits : (s.key src).Suits header)
    (hkey : key.isPreparedObjectKey = false) (hhazard : key.keyType = .resume → key.isHazard = false) :
    ∃ ring', Inv (((takePlace dst src s).put dst (s.key src)).put src key) ring' := by
  have hne : dst ≠ src := by
    rintro rfl
    rw [hon.1] at hdst
    cases hdst
  have hring := h.links header hh
  have hmem := (h.mem header hh src).2 hon
  obtain ⟨l, r, hlr⟩ := List.append_of_mem hmem
  have hnodup := nodup_of_ring hring
  have hnotsrc : src ∉ l ++ r := by
    rw [hlr] at hnodup
    exact (List.nodup_cons.1 (List.nodup_middle.1 hnodup)).1
  have hnotdst : dst ∉ l ++ src :: r := by
    rw [← hlr]
    exact h.not_mem hdst header hh
  have hnotdst' : dst ∉ l ++ r := by
    simp only [List.mem_append, List.mem_cons, not_or] at hnotdst ⊢
    exact ⟨hnotdst.1, hnotdst.2.2⟩
  set s' := ((takePlace dst src s).put dst (s.key src)).put src key with hs'
  have hkdst : s'.key dst = s.key src := by
    rw [hs', put_other _ _ hne, put_same]
  have hksrc : s'.key src = key := put_same _ _ _
  have hother : ∀ j, ¬(j = dst ∨ j = src) → s'.key j = s.key j := by
    intro j hj
    rw [hs', put_other _ _ fun he => hj (.inr he), put_other _ _ fun he => hj (.inl he)]
    rfl
  have hmk : Loc.key src ∈ header :: (ring header).map .key :=
    List.mem_cons_of_mem _ (List.mem_map.2 ⟨src, hmem, rfl⟩)
  have hp := hring.prev_mem hmk
  have hn := hring.next_mem hmk
  refine ⟨update ring header (l ++ dst :: r), ?_⟩
  refine h.modify (K := fun j => j = dst ∨ j = src) hh hother ?_ ?_ ?_ ?_ ?_ ?_ ?_ ?_
  · rintro j (rfl | rfl) header' hon'
    · rw [hon'.1] at hdst
      cases hdst
    · exact hon'.unique hon
  · rintro j (rfl | rfl) hj
    · rw [hkdst]
      exact ⟨hon.2, hsuits⟩
    · rw [hksrc, hkey] at hj
      cases hj
  · rintro j (rfl | rfl) hj
    · rw [hkdst] at hj ⊢
      exact h.hazard src hj
    · rw [hksrc] at hj ⊢
      exact hhazard hj
  · intro x hx hout
    have hxp : x ≠ s.prev (.key src) := fun he => hout (he ▸ hp)
    simp [hs', State.put, takePlace, hx dst (.inl rfl), hxp]
  · intro x hx hout
    have hxn : x ≠ s.next (.key src) := fun he => hout (he ▸ hn)
    simp [hs', State.put, takePlace, hx dst (.inl rfl), hxn]
  · rw [hlr] at hring
    exact ring_takePlace hring hh hnotdst
  · intro j
    have hiff := h.mem header hh j
    by_cases hjd : j = dst
    · subst hjd
      simp [OnRing, hkdst, hon.1, hon.2]
    · by_cases hjs : j = src
      · subst hjs
        simp only [OnRing, hksrc, hkey, List.mem_append, List.mem_cons, hjd, false_or]
        simpa using hnotsrc
      · unfold OnRing at hiff ⊢
        rw [hother j (not_or.2 ⟨hjd, hjs⟩), ← hiff, hlr]
        simp [hjd, hjs]
  · -- The key has the type of the one whose place it takes.
    have hres := h.resume header hh
    have htype : ∀ j ∈ l ++ r, s'.key j = s.key j := fun j hj =>
      hother j (not_or.2 ⟨fun he => hnotdst' (he ▸ hj), fun he => hnotsrc (he ▸ hj)⟩)
    rw [hlr] at hres
    obtain ⟨-, hsrc, hplr⟩ := List.pairwise_append.1 hres
    refine ResumeLast.insert htype (hres.sublist ((List.sublist_cons_self src r).append_left l)) ?_ ?_
    · intro i hi
      rw [hkdst]
      exact hplr i hi src (List.mem_cons_self ..)
    · intro j hj
      rw [hkdst]
      exact (List.pairwise_cons.1 hsrc).1 j hj

end CapROS.KeyRing
