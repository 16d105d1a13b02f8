import CapROS.Directory.FiniteMap

/-!
# Links that fail

A link that is answered with `noSpace` should leave the directory as it was. But `alloc_dirent` does not give the
number back when the supernode has no slot for it.

* `failed_put`: it holds when no number is free, unless a page is coalesced.
* `failed_put_takes`: otherwise a number is lost.
-/

namespace CapROS.Directory

open Records

variable {Key : Type*} {void key : Key} {s s' : State Key} {m : List UInt8 → Option Key} {msg : Msg Key}
  {pages pages' : List (List Ent)} {freeMap : ℕ → BitVec 32} {name : List UInt8} {range : Bool} {fuel limit dp : ℕ}

/-- The same numbers are free, and lookups have the same answers. -/
def Unchanged (s s' : State Key) : Prop :=
  s'.freeMap = s.freeMap ∧ ∀ name, ∃ fuel fuel' r, s.lookup fuel name = some (s, r) ∧
    s'.lookup fuel' name = some (s', r)

/-- `find_space` does not come to `coalesce_page`: the first page with enough free bytes has them in one entry. -/
def Uncoalesced (len : ℕ) (pages : List (List Ent)) : Prop := Fits len len True pages

theorem Sim.unchanged (h : Sim s m pages) (h' : Sim s' m pages') (hfree : s'.freeMap = s.freeMap) :
    Unchanged s s' := by
  refine ⟨hfree, fun name => ?_⟩
  obtain ⟨fuel, hlookup⟩ := h.lookup name
  obtain ⟨fuel', hlookup'⟩ := h'.lookup name
  exact ⟨fuel, fuel', _, hlookup, hlookup'⟩

/-- `alloc_dirent` takes a number if one is free, also when the supernode does not allocate the slot. -/
theorem alloc_dirent_eq_iff : (alloc_dirent freeMap range).1 = freeMap ↔ findClear freeMap max_w 0 = none := by
  unfold alloc_dirent
  cases hfind : findClear freeMap max_w 0 with
  | none => exact iff_of_true rfl rfl
  | some found =>
    obtain ⟨w, bit⟩ := found
    obtain ⟨-, hbit, hclear⟩ := findClear_spec hfind
    refine iff_of_false (fun heq => ?_) (Option.some_ne_none _)
    have hset := congrArg (fun f => (f w).getLsbD bit) heq
    simp [hbit, -BitVec.getLsbD_eq_getElem, hclear] at hset

theorem insert_dirent_noSpace (h : s.insert_dirent dp name key range = (s', ⟨.noSpace, none⟩)) :
    s' = { s with freeMap := (alloc_dirent s.freeMap range).1 } := by
  unfold State.insert_dirent at h
  dsimp only at h
  split_ifs at h
  · exact (Prod.mk.inj h).1.symm
  · cases (Prod.mk.inj h).2

theorem link_noSpace (h : s.link fuel limit name key range = some (s', ⟨.noSpace, none⟩)) :
    ∃ s₁ : State Key, s' = { s₁ with freeMap := (alloc_dirent s.freeMap range).1 } ∧
      ((find_space s.mem s.dir_top (entryLen name) fuel 0 = some none ∧ s₁ = s.newPage) ∨
        ∃ mem dp, find_space s.mem s.dir_top (entryLen name) fuel 0 = some (some (mem, dp)) ∧
          s₁ = { s with mem := mem }) := by
  unfold State.link at h
  split at h
  · cases h
  · cases h
  · split at h
    · cases h
    · rename_i mem dp hspace
      exact ⟨{ s with mem := mem }, insert_dirent_noSpace (Option.some.inj h), .inr ⟨mem, dp, hspace, rfl⟩⟩
    · rename_i hspace
      split_ifs at h
      exact ⟨s.newPage, insert_dirent_noSpace (Option.some.inj h), .inl ⟨hspace, rfl⟩⟩

/-- A link that fails leaves the directory unchanged only if no number is free, and then if no page is coalesced. -/
theorem failed_put (h : Sim s m pages) (hput : msg.request = .put key range)
    (hrun : s.processRequest fuel limit void msg = some (s', ⟨.noSpace, none⟩)) :
    (Unchanged s s' → findClear s.freeMap max_w 0 = none) ∧
      (Uncoalesced (entryLen msg.name) pages → findClear s.freeMap max_w 0 = none → Unchanged s s') := by
  have hmono := processRequest_mono (Nat.le_add_right fuel (pages.length + pages.flatten.length + 1)) hrun
  simp only [State.processRequest, hput] at hmono
  obtain ⟨s₁, rfl, hspace⟩ := link_noSpace hmono
  refine ⟨fun hsame => alloc_dirent_eq_iff.1 hsame.1, fun hfits hfull => ?_⟩
  rw [alloc_dirent_eq_iff.2 hfull]
  obtain ⟨hlaid, hpages, htop⟩ := h.layout
  obtain ⟨hnone, rfl⟩ | ⟨mem, dp, hsome, rfl⟩ := hspace
  · exact h.unchanged h.newPage rfl
  · obtain ⟨hnone, -⟩ | ⟨front, l, e, r, back, rfl, hfree, hfound⟩ :=
      find_space_spec hfits hlaid hpages (htop.trans (Nat.zero_add _).symm) (Nat.lt_of_succ_le (Nat.le_add_left _ fuel))
    · cases hsome.symm.trans hnone
    · obtain rfl := (Prod.mk.inj (Option.some.inj (Option.some.inj (hsome.symm.trans hfound)))).1
      rw [Nat.zero_add]
      exact h.unchanged (h.vacate rfl ((le_entryLen _).trans hfree)).1 rfl

/-- A new directory in which no number is free. -/
def fullDirectory : State ℕ := { State.init 0 1 2 with freeMap := fun _ => BitVec.allOnes 32 }

theorem failed_put_full : ∃ s', fullDirectory.processRequest 9 8192 0 (put [97] 7) = some (s', ⟨.noSpace, none⟩) ∧
    Unchanged fullDirectory s' := by
  have hsim : Sim fullDirectory (initMap 1 2) [initPage] :=
    ⟨(init_sim 0 1 2).layout, (init_sim 0 1 2).represents.mono fun i _ =>
      BitVec.getLsbD_allOnes.trans (decide_eq_true (Nat.mod_lt i (by decide)))⟩
  have hcode : (fullDirectory.processRequest 9 8192 0 (put [97] 7)).map Prod.snd = some ⟨.noSpace, none⟩ := by
    decide +kernel
  obtain ⟨⟨s', r⟩, hrun, rfl⟩ := Option.map_eq_some_iff.1 hcode
  have hfits : Uncoalesced 12 [initPage] := show 12 ≤ 4072 by decide
  exact ⟨s', hrun, (failed_put hsim rfl hrun).2 hfits (by decide +kernel)⟩

/-- In a new directory, a link for which the supernode has no slot takes the number 2. -/
theorem failed_put_takes : ¬∀ (s s' : State ℕ) m pages key range fuel, Sim s m pages →
    s.processRequest fuel 8192 0 ⟨[97], .put key range⟩ = some (s', ⟨.noSpace, none⟩) → Unchanged s s' := by
  intro h
  have hcomputed : ((State.init 0 1 2).processRequest 9 8192 0 ⟨[97], .put 7 false⟩).map
      (fun out => (out.1.freeMap 0, out.2)) = some (7#32, ⟨.noSpace, none⟩) := by
    decide +kernel
  obtain ⟨⟨s', r⟩, hrun, hout⟩ := Option.map_eq_some_iff.1 hcomputed
  obtain ⟨hword, rfl⟩ := Prod.mk.inj hout
  have hsame := congrFun (h _ s' _ _ _ _ _ (init_sim 0 1 2) hrun).1 0
  exact absurd (hword.symm.trans hsame) (by decide)

end CapROS.Directory
