import CapROS.KeySet.Requests

/-!
# Key sets and finite maps

What a key set is for, according to its documentation: it answers as a map from keys to data words. The claim
fails. `RemoveKey` and `IsEmpty` go on into the next case of `ProcessRequest`, and `Empty` leaves the end of the
table where it is.

* `keySet_proper`: in the runs of proper requests, the key set answers as the map.
* `keySet_fails`: it does not in all runs.
-/

namespace CapROS.KeySet

open Cells ShellSort
open Function (update update_self update_of_ne)

/-- A map from keys to data words, and the version of the key bits in it. -/
structure FiniteMap where
  map : KeyBits → Option UInt32
  version : UInt32

namespace FiniteMap

/-- There is a key. -/
def Nonempty (map : KeyBits → Option UInt32) : Prop := ∃ k, map k ≠ none

/-- The version of the key bits has changed. -/
def Invalid (m : FiniteMap) (version : UInt32) : Prop := version ≠ m.version ∧ Nonempty m.map

open Classical in
/-- The documented effect on the map and the documented answer. -/
noncomputable def stepCase (m : FiniteMap) (msg : Msg) : (KeyBits → Option UInt32) × Response :=
  match msg.request with
  | .addKey data =>
    if msg.rdOnly = true then (m.map, ⟨.unknownRequest, 0⟩)
    else if m.Invalid msg.version then (m.map, ⟨.setInvalid, 0⟩)
    else (update m.map msg.w (some data), ⟨.ok, (m.map msg.w).getD 0⟩)
  | .removeKey =>
    if msg.rdOnly = true then (m.map, ⟨.unknownRequest, 0⟩)
    else if m.Invalid msg.version then (m.map, ⟨.setInvalid, 0⟩)
    else
      match m.map msg.w with
      | none => (m.map, ⟨.one, 0⟩)
      | some data => (update m.map msg.w none, ⟨.ok, data⟩)
  | .containsKey =>
    if m.Invalid msg.version then (m.map, ⟨.setInvalid, 0⟩)
    else
      match m.map msg.w with
      | none => (m.map, ⟨.one, 0⟩)
      | some data => (m.map, ⟨.ok, data⟩)
  | .isEmpty =>
    if m.Invalid msg.version then (m.map, ⟨.setInvalid, 0⟩)
    else if Nonempty m.map then (m.map, ⟨.one, 0⟩)
    else (m.map, ⟨.ok, 0⟩)
  | .empty =>
    if msg.rdOnly = true then (m.map, ⟨.unknownRequest, 0⟩)
    else (fun _ => none, ⟨.ok, 0⟩)

open Classical in
/-- The documented behaviour. The version is that of the first key. -/
noncomputable def step (m : FiniteMap) (msg : Msg) : FiniteMap × Response :=
  let out := m.stepCase msg
  (⟨out.1, if msg.version ≠ m.version ∧ ¬m.Invalid msg.version ∧ Nonempty out.1 then msg.version else m.version⟩,
    out.2)

end FiniteMap

theorem FiniteMap.isEmpty_of_nonempty {m : FiniteMap} {rdOnly : Bool} {version : UInt32} {w : KeyBits}
    (hinvalid : ¬m.Invalid version) (hne : Nonempty m.map) :
    (m.step ⟨rdOnly, version, w, .isEmpty⟩).2 = ⟨.one, 0⟩ := by
  simp only [step, stepCase, if_neg hinvalid, if_pos hne]

/-! ## The table -/

variable {s s' : KeySetStat} {m : FiniteMap} {map : KeyBits → Option UInt32} {l : List Entry} {e : Entry}
  {w : KeyBits} {data version : UInt32} {msg : Msg} {capacity i j : ℕ}

/-- No key is twice in the table, and the sorted entries are sorted. -/
structure Valid (s : KeySetStat) : Prop where
  nodup : (s.entries.map (·.w)).Nodup
  sorted : SortedKeys s.table s.numSorted

/-- The entries are those of the map. -/
def Represents (l : List Entry) (map : KeyBits → Option UInt32) : Prop :=
  ∀ k d, map k = some d ↔ ⟨k, d⟩ ∈ l

theorem mem_entries : e ∈ s.entries ↔ ∃ i < s.size, s.table i = e := by
  rw [KeySetStat.entries, read_eq_map, List.mem_map]
  simp only [List.mem_range, Nat.zero_add]

theorem Valid.index (h : Valid s) (hi : i < s.size) (hj : j < s.size) (hw : (s.table i).w = (s.table j).w) :
    i = j := by
  have hnodup := h.nodup
  rw [KeySetStat.entries, read_eq_map, List.map_map] at hnodup
  refine List.inj_on_of_nodup_map hnodup (List.mem_range.2 hi) (List.mem_range.2 hj) ?_
  simpa only [Function.comp_apply, Nat.zero_add] using hw

theorem Valid.init (version : UInt32) : Valid (KeySetStat.init version) :=
  ⟨List.nodup_nil, fun _ q _ hq => absurd hq (Nat.not_lt_zero q)⟩

theorem Represents.init (version : UInt32) : Represents (KeySetStat.init version).entries fun _ => none := by
  intro k d
  simp [KeySetStat.entries, KeySetStat.init, KeySetStat.size]

theorem Represents.perm (h : Represents l map) {l' : List Entry} (hperm : l'.Perm l) : Represents l' map :=
  fun k d => (h k d).trans hperm.mem_iff.symm

theorem Represents.nonempty_iff (h : Represents s.entries map) : FiniteMap.Nonempty map ↔ s.size ≠ 0 := by
  constructor
  · rintro ⟨k, hk⟩ hsize
    obtain ⟨d, hd⟩ := Option.ne_none_iff_exists'.1 hk
    obtain ⟨i, hi, -⟩ := mem_entries.1 ((h k d).1 hd)
    omega
  · intro hsize
    have hmem : s.table 0 ∈ s.entries := mem_entries.2 ⟨0, by omega, rfl⟩
    exact ⟨(s.table 0).w, fun hnone => by simpa [hnone] using (h _ _).2 hmem⟩

theorem Valid.find_eq_some (h : Valid s) (hrep : Represents s.entries map) (hfind : s.find w = some i) :
    i < s.size ∧ (s.table i).w = w ∧ map w = some (s.table i).data := by
  have hspec := @findEntry_spec s.table w s.numSorted s.numUnsorted h.sorted
  rw [KeySetStat.find] at hfind
  rw [hfind] at hspec
  obtain ⟨hi, rfl⟩ := hspec
  exact ⟨hi, rfl, (hrep _ _).2 (mem_entries.2 ⟨i, hi, rfl⟩)⟩

theorem Valid.find_eq_none (h : Valid s) (hrep : Represents s.entries map) (hfind : s.find w = none) :
    map w = none := by
  have hspec := @findEntry_spec s.table w s.numSorted s.numUnsorted h.sorted
  rw [KeySetStat.find] at hfind
  rw [hfind] at hspec
  refine Option.eq_none_iff_forall_ne_some.2 fun d hd => ?_
  obtain ⟨i, hi, he⟩ := mem_entries.1 ((hrep w d).1 hd)
  exact hspec i hi (by rw [he])

/-! ## The operations on the table -/

theorem entries_requireSorted (s : KeySetStat) : s.requireSorted.entries.Perm s.entries := by
  unfold KeySetStat.requireSorted
  split_ifs with hu
  · exact sortTable_perm
  · exact List.Perm.refl _

theorem Valid.requireSorted (h : Valid s) : Valid s.requireSorted := by
  refine ⟨(((entries_requireSorted s).map _).nodup_iff).2 h.nodup, ?_⟩
  unfold KeySetStat.requireSorted
  split_ifs with hu
  · exact sortTable_sorted
  · exact h.sorted

@[simp] theorem requireSorted_numUnsorted (s : KeySetStat) : s.requireSorted.numUnsorted = 0 := by
  unfold KeySetStat.requireSorted
  split_ifs with hu
  · rfl
  · exact not_not.1 hu

@[simp] theorem requireSorted_size (s : KeySetStat) : s.requireSorted.size = s.size := by
  unfold KeySetStat.requireSorted
  split_ifs with hu
  · rfl
  · rfl

@[simp] theorem requireSorted_end_of_table (s : KeySetStat) :
    s.requireSorted.end_of_table = s.end_of_table := by
  unfold KeySetStat.requireSorted
  split_ifs <;> rfl

@[simp] theorem requireSorted_version (s : KeySetStat) :
    s.requireSorted.startKeyBitsVersion = s.startKeyBitsVersion := by
  unfold KeySetStat.requireSorted
  split_ifs <;> rfl

theorem setData_self : (s.setData i data).table i = ⟨(s.table i).w, data⟩ := update_self _ _ _

theorem setData_of_ne (hj : j ≠ i) : (s.setData i data).table j = s.table j := update_of_ne hj _ _

theorem Valid.setData (h : Valid s) (hrep : Represents s.entries map) (hi : i < s.size) :
    Valid (s.setData i data) ∧
      Represents (s.setData i data).entries (update map (s.table i).w (some data)) := by
  have hkeys : ∀ j, ((s.setData i data).table j).w = (s.table j).w := by
    intro j
    by_cases hj : j = i
    · subst hj
      rw [setData_self]
    · rw [setData_of_ne hj]
  refine ⟨⟨?_, fun p q hpq hq => ?_⟩, fun k d => ?_⟩
  · have hmap : (s.setData i data).entries.map (·.w) = s.entries.map (·.w) := by
      rw [KeySetStat.entries, KeySetStat.entries, read_eq_map, read_eq_map, List.map_map, List.map_map]
      exact List.map_congr_left fun j _ => hkeys _
    rw [hmap]
    exact h.nodup
  · dsimp only
    rw [hkeys, hkeys]
    exact h.sorted p q hpq hq
  · rw [mem_entries]
    by_cases hk : k = (s.table i).w
    · subst hk
      rw [update_self]
      constructor
      · intro hd
        obtain rfl := Option.some.inj hd
        exact ⟨i, hi, setData_self⟩
      · rintro ⟨j, hj, he⟩
        obtain rfl := h.index hj hi (by rw [← hkeys j, he])
        rw [setData_self] at he
        rw [(Entry.mk.inj he).2]
    · rw [update_of_ne hk, hrep k d, mem_entries]
      refine exists_congr fun j => and_congr_right fun hj => ?_
      have hne : (s.table j).w = k → j ≠ i := by
        rintro rfl rfl
        exact hk rfl
      constructor
      · intro he
        rw [setData_of_ne (hne (by rw [he])), he]
      · intro he
        have hw : (s.table j).w = k := by rw [← hkeys j, he]
        rwa [setData_of_ne (hne hw)] at he

theorem entries_append (hend : s.end_of_table = s.size) (e : Entry) : (s.append e).entries = s.entries ++ [e] := by
  have hsize : (s.append e).size = s.size + 1 := rfl
  rw [KeySetStat.entries, hsize, read_add]
  congr 1
  · refine read_congr fun j _ hj => update_of_ne ?_ _ _
    omega
  · rw [Nat.zero_add, read_one, ← hend]
    exact congrArg (fun x => [x]) (update_self _ _ _)

theorem Valid.append (h : Valid s) (hrep : Represents s.entries map) (hend : s.end_of_table = s.size)
    (hnew : map e.w = none) : Valid (s.append e) ∧
      Represents (s.append e).entries (update map e.w (some e.data)) := by
  have hnot : ∀ d, ⟨e.w, d⟩ ∉ s.entries := fun d hd => by simpa [hnew] using (hrep e.w d).2 hd
  refine ⟨⟨?_, fun p q hpq hq => ?_⟩, fun k d => ?_⟩
  · rw [entries_append hend, List.map_append, List.map_singleton]
    refine List.nodup_append.2 ⟨h.nodup, List.nodup_singleton _, fun a ha b hb hab => ?_⟩
    obtain ⟨e', he', rfl⟩ := List.mem_map.1 ha
    rw [List.mem_singleton.1 hb] at hab
    exact hnot e'.data (hab ▸ he')
  · have hq' : q < s.numSorted := hq
    have hle : s.numSorted ≤ s.size := Nat.le_add_right _ _
    simp only [KeySetStat.append]
    rw [update_of_ne (by omega), update_of_ne (by omega)]
    exact h.sorted p q hpq hq'
  · rw [entries_append hend, List.mem_append, List.mem_singleton]
    by_cases hk : k = e.w
    · subst hk
      rw [update_self, Option.some_inj, or_iff_right (hnot d)]
      constructor
      · rintro rfl
        rfl
      · intro he
        rw [← he]
    · rw [update_of_ne hk, hrep k d, or_iff_left]
      rintro rfl
      exact hk rfl

theorem tidy_perm (s : KeySetStat) : s.tidy.entries.Perm s.entries := by
  unfold KeySetStat.tidy
  split_ifs
  · exact entries_requireSorted s
  · exact List.Perm.refl _

theorem Valid.tidy (h : Valid s) : Valid s.tidy := by
  unfold KeySetStat.tidy
  split_ifs
  · exact h.requireSorted
  · exact h

theorem tidy_version (s : KeySetStat) : s.tidy.startKeyBitsVersion = s.startKeyBitsVersion := by
  unfold KeySetStat.tidy
  split_ifs
  · exact requireSorted_version s
  · rfl

theorem Valid.empty (s : KeySetStat) : Valid s.empty ∧ Represents s.empty.entries fun _ => none := by
  refine ⟨⟨List.nodup_nil, fun _ q _ hq => absurd hq (Nat.not_lt_zero q)⟩, fun k d => ?_⟩
  simp [KeySetStat.entries, KeySetStat.empty, KeySetStat.size]

/-! ## The simulation -/

/-- The requests that are answered as documented. -/
def Proper (capacity : ℕ) (s : KeySetStat) (msg : Msg) : Prop :=
  match msg.request with
  | .addKey _ =>
    -- A new key goes where the entries end, and there is room for it.
    msg.rdOnly = false → ¬s.setInvalid msg.version → s.find msg.w = none →
      s.end_of_table = s.size ∧ s.end_of_table < capacity
  | .removeKey => msg.rdOnly = false → ¬s.setInvalid msg.version → s.find msg.w = none
  | .containsKey => True
  | .isEmpty => msg.rdOnly = false ∧ s.size = 0
  | .empty => True

/-- The key set stands for the map. -/
structure Sim (s : KeySetStat) (m : FiniteMap) : Prop where
  valid : Valid s
  represents : Represents s.entries m.map
  version : s.startKeyBitsVersion = m.version

theorem Sim.invalid_iff (h : Sim s m) : m.Invalid version ↔ s.setInvalid version := by
  rw [FiniteMap.Invalid, KeySetStat.setInvalid, h.version, h.represents.nonempty_iff]

theorem Sim.refused (h : Sim s m) (response : Response) :
    ∃ s', some (s, response) = some (s', response) ∧ Valid s' ∧ Represents s'.entries m.map ∧
      s'.startKeyBitsVersion = s.startKeyBitsVersion :=
  ⟨s, rfl, h.valid, h.represents, rfl⟩

theorem Sim.addKey (h : Sim s m) (hnew : s.find w = none → s.end_of_table = s.size ∧ s.end_of_table < capacity) :
    ∃ s', s.addKey capacity w data = some (s', ⟨.ok, (m.map w).getD 0⟩) ∧ Valid s' ∧
      Represents s'.entries (update m.map w (some data)) ∧
      s'.startKeyBitsVersion = s.startKeyBitsVersion := by
  unfold KeySetStat.addKey
  cases hfind : s.find w with
  | some i =>
    obtain ⟨hi, rfl, hmap⟩ := h.valid.find_eq_some h.represents hfind
    obtain ⟨hvalid, hrep⟩ := @Valid.setData s m.map data i h.valid h.represents hi
    exact ⟨_, by rw [hmap]; rfl, hvalid, hrep, rfl⟩
  | none =>
    obtain ⟨hend, hroom⟩ := hnew hfind
    have hnone := h.valid.find_eq_none h.represents hfind
    obtain ⟨hvalid, hrep⟩ := @Valid.append s m.map ⟨w, data⟩ h.valid h.represents hend hnone
    rw [if_pos hroom, hnone]
    exact ⟨_, rfl, hvalid.tidy, hrep.perm (tidy_perm _), tidy_version _⟩

theorem Sim.processCase (h : Sim s m) (hproper : Proper capacity s msg) :
    ∃ s', s.processCase capacity msg = some (s', (m.stepCase msg).2) ∧ Valid s' ∧
      Represents s'.entries (m.stepCase msg).1 ∧ s'.startKeyBitsVersion = s.startKeyBitsVersion := by
  obtain ⟨rdOnly, version, w, request⟩ := msg
  have hinvalid := @Sim.invalid_iff s m version h
  cases request with
  | addKey data =>
    simp only [KeySetStat.processCase, FiniteMap.stepCase, hinvalid]
    by_cases hro : rdOnly = true
    · rw [if_pos hro, if_pos hro]
      exact h.refused _
    · rw [if_neg hro, if_neg hro]
      by_cases hinv : s.setInvalid version
      · rw [if_pos hinv, if_pos hinv]
        exact h.refused _
      · rw [if_neg hinv, if_neg hinv]
        exact h.addKey (hproper (Bool.eq_false_iff.2 hro) hinv)
  | removeKey =>
    simp only [KeySetStat.processCase, FiniteMap.stepCase, hinvalid]
    by_cases hro : rdOnly = true
    · rw [if_pos hro, if_pos hro]
      exact h.refused _
    · rw [if_neg hro, if_neg hro]
      by_cases hinv : s.setInvalid version
      · rw [if_pos hinv, if_pos hinv]
        exact h.refused _
      · have hfind : s.find w = none := hproper (Bool.eq_false_iff.2 hro) hinv
        rw [if_neg hinv, if_neg hinv, hfind, h.valid.find_eq_none h.represents hfind]
        exact h.refused _
  | containsKey =>
    simp only [KeySetStat.processCase, FiniteMap.stepCase, KeySetStat.containsKey, hinvalid]
    by_cases hinv : s.setInvalid version
    · rw [if_pos hinv, if_pos hinv]
      exact h.refused _
    · rw [if_neg hinv, if_neg hinv]
      cases hfind : s.find w with
      | none =>
        rw [h.valid.find_eq_none h.represents hfind]
        exact h.refused _
      | some i =>
        rw [(h.valid.find_eq_some h.represents hfind).2.2]
        exact h.refused _
  | isEmpty =>
    obtain ⟨hro, hsize⟩ := hproper
    have hro : rdOnly = false := hro
    have hinv : ¬s.setInvalid version := fun hinv => hinv.2 hsize
    have hempty : ¬FiniteMap.Nonempty m.map := fun hne => h.represents.nonempty_iff.1 hne hsize
    have hmap : m.map = fun _ => none := funext fun k => by_contra fun hk => hempty ⟨k, hk⟩
    obtain ⟨hvalid, hrep⟩ := Valid.empty s
    simp only [KeySetStat.processCase, FiniteMap.stepCase, hinvalid, if_neg hinv, if_neg hempty, hro,
      Bool.false_eq_true, if_false]
    exact ⟨_, rfl, hvalid, hmap ▸ hrep, rfl⟩
  | empty =>
    simp only [KeySetStat.processCase, FiniteMap.stepCase]
    by_cases hro : rdOnly = true
    · rw [if_pos hro, if_pos hro]
      exact h.refused _
    · rw [if_neg hro, if_neg hro]
      obtain ⟨hvalid, hrep⟩ := Valid.empty s
      exact ⟨_, rfl, hvalid, hrep, rfl⟩

theorem Sim.setVersion (hvalid : Valid s) (hrep : Represents s.entries map) (hversion : s.startKeyBitsVersion =
    m.version) {invalid invalid' : Prop} [Decidable invalid] [Decidable invalid']
    (hinvalid : invalid ↔ invalid') [Decidable (version ≠ m.version ∧ ¬invalid' ∧ FiniteMap.Nonempty map)] :
    Sim (s.setVersion version invalid)
      ⟨map, if version ≠ m.version ∧ ¬invalid' ∧ FiniteMap.Nonempty map then version else m.version⟩ := by
  have hiff : (version ≠ s.startKeyBitsVersion ∧ ¬invalid ∧ s.size ≠ 0) ↔
      (version ≠ m.version ∧ ¬invalid' ∧ FiniteMap.Nonempty map) := by
    rw [hversion, hinvalid, hrep.nonempty_iff]
  unfold KeySetStat.setVersion
  by_cases hset : version ≠ s.startKeyBitsVersion ∧ ¬invalid ∧ s.size ≠ 0
  · rw [if_pos hset, if_pos (hiff.1 hset)]
    exact ⟨⟨hvalid.nodup, hvalid.sorted⟩, hrep, rfl⟩
  · rw [if_neg hset, if_neg fun h => hset (hiff.2 h)]
    exact ⟨hvalid, hrep, hversion⟩

theorem Sim.step (h : Sim s m) (hproper : Proper capacity s msg) :
    ∃ s', s.processRequest capacity msg = some (s', (m.step msg).2) ∧ Sim s' (m.step msg).1 := by
  obtain ⟨s', hrun, hvalid, hrep, hversion⟩ := h.processCase hproper
  refine ⟨s'.setVersion msg.version (s.setInvalid msg.version), ?_, ?_⟩
  · rw [KeySetStat.processRequest, hrun]
    rfl
  · classical
    exact Sim.setVersion hvalid hrep (hversion.trans h.version) h.invalid_iff.symm

/-- The states of a key set and of the map after sequences of admitted messages. -/
inductive Run (capacity : ℕ) (admitted : KeySetStat → Msg → Prop) : KeySetStat → FiniteMap → Prop where
  | init (version : UInt32) : Run capacity admitted (.init version) ⟨fun _ => none, version⟩
  | step {s m s' r} (msg : Msg) : Run capacity admitted s m → admitted s msg →
      s.processRequest capacity msg = some (s', r) → Run capacity admitted s' (m.step msg).1

theorem Run.sim (h : Run capacity (Proper capacity) s m) : Sim s m := by
  induction h with
  | init version => exact ⟨Valid.init version, Represents.init version, rfl⟩
  | step msg _ hproper hrun ih =>
    obtain ⟨s', hrun', hsim⟩ := ih.step hproper
    rw [hrun] at hrun'
    obtain ⟨rfl, -⟩ := Prod.mk.inj (Option.some.inj hrun')
    exact hsim

/-- What is claimed of a key set, and of the messages that are admitted in its state. -/
structure Correct (capacity : ℕ) (admitted : Msg → Prop) (s : KeySetStat) (m : FiniteMap) : Prop where
  /-- The table is without duplicates, and its sorted part is sorted. -/
  valid : Valid s
  /-- The entries are those of the map. -/
  represents : Represents s.entries m.map
  /-- A message is answered as the documentation says. -/
  answers : ∀ {msg}, admitted msg → ∃ s', s.processRequest capacity msg = some (s', (m.step msg).2)
  /-- A message through a read-only key changes no entry. -/
  readOnly : ∀ {msg s' r}, msg.rdOnly = true → s.processRequest capacity msg = some (s', r) →
    s'.entries = s.entries

theorem entries_of_rdOnly {r : Response} (hro : msg.rdOnly = true)
    (hrun : s.processRequest capacity msg = some (s', r)) : s'.entries = s.entries := by
  have hcase : ∃ r', s.processCase capacity msg = some (s, r') := by
    obtain ⟨rdOnly, version, w, request⟩ := msg
    subst hro
    cases request with
    | isEmpty =>
      simp only [KeySetStat.processCase]
      split_ifs
      · exact ⟨_, rfl⟩
      · exact ⟨_, rfl⟩
    | _ => exact ⟨_, rfl⟩
  obtain ⟨r', hcase⟩ := hcase
  rw [KeySetStat.processRequest, hcase] at hrun
  obtain ⟨rfl, -⟩ := Prod.mk.inj (Option.some.inj hrun)
  unfold KeySetStat.setVersion
  split_ifs
  · rfl
  · rfl

/-- In the runs of proper messages, the key set answers as a finite map. -/
theorem keySet_proper (h : Run capacity (Proper capacity) s m) : Correct capacity (Proper capacity s) s m where
  valid := h.sim.valid
  represents := h.sim.represents
  answers hproper := by
    obtain ⟨s', hrun, -⟩ := h.sim.step hproper
    exact ⟨s', hrun⟩
  readOnly := entries_of_rdOnly

/-- A message with a key, through a read-write key to the key set. -/
def keyMsg (w0 : UInt32) (request : Request) : Msg := ⟨false, 0, ⟨w0, 0, 0, 0⟩, request⟩

/-- Two keys are added, and the first one is added again with another data word. -/
theorem keySet_proper_replaced : ∃ s m, s.entries = [⟨⟨3, 0, 0, 0⟩, 9⟩, ⟨⟨1, 0, 0, 0⟩, 8⟩] ∧
    Correct 4 (Proper 4 s) s m := by
  have h1 : Run 4 (Proper 4) _ _ :=
    .step (keyMsg 3 (.addKey 7)) (.init 0) (fun _ _ _ => ⟨rfl, by decide⟩) rfl
  have h2 : Run 4 (Proper 4) _ _ := .step (keyMsg 1 (.addKey 8)) h1 (fun _ _ _ => ⟨rfl, by decide⟩) rfl
  have h3 : Run 4 (Proper 4) _ _ :=
    .step (keyMsg 3 (.addKey 9)) h2 (fun _ _ hnone => absurd hnone (by decide)) rfl
  exact ⟨_, _, rfl, keySet_proper h3⟩

/-- One key is added, and then the key set is asked whether it is empty. It says yes. -/
theorem keySet_fails : ¬∀ (s : KeySetStat) (m : FiniteMap), Run 4 (fun _ _ => True) s m →
    Correct 4 (fun _ => True) s m := by
  intro h
  have hadded : Run 4 (fun _ _ => True) _ _ := Run.step (keyMsg 1 (.addKey 7)) (.init 0) trivial rfl
  have hsim := (@Run.step 4 _ _ _ _ _ (keyMsg 1 (.addKey 7)) (.init 0) (fun _ _ _ => ⟨rfl, by decide⟩) rfl :
    Run 4 (Proper 4) _ _).sim
  obtain ⟨s', hrun⟩ := @Correct.answers _ _ _ _ (h _ _ hadded) (keyMsg 1 .isEmpty) trivial
  have hne := hsim.represents.nonempty_iff.2 (by decide)
  have hinv := hsim.invalid_iff.not.2 (by decide : ¬KeySetStat.setInvalid _ 0)
  have hcode := (Prod.mk.inj (Option.some.inj hrun)).2.trans (FiniteMap.isEmpty_of_nonempty hinv hne)
  exact absurd hcode (by decide)

end CapROS.KeySet
