import CapROS.Directory.Layout

/-!
# Directories and finite maps

What a directory is for: it answers as a map from names to keys. The claim fails. `insert_dirent` pads the name
beyond the end of an entry that has no more than its true length, and `coalesce_page` does not go on to the next
entry.

* `directory_proper`: in the runs of proper requests, the directory answers as the map.
* `directory_fails`: it does not in all runs.
-/

namespace CapROS.Directory

open Cells Bytes Records
open Function (update update_self update_apply update_of_ne)

variable {Key : Type*} {void key : Key} {freeMap freeMap' : ℕ → BitVec 32} {i w n bit entno : ℕ} {range : Bool}

/-! ## The numbers of entries -/

/-- The number is taken. -/
def Taken (freeMap : ℕ → BitVec 32) (i : ℕ) : Prop := (freeMap (i / 32)).getLsbD (i % 32) = true

theorem findClear_spec (h : findClear freeMap n i = some (w, bit)) :
    w < i + n ∧ bit < 32 ∧ (freeMap w).getLsbD bit = false := by
  induction n generalizing i with
  | zero => cases h
  | succ n ih =>
    have hnext : findClear freeMap n (i + 1) = some (w, bit) →
        w < i + (n + 1) ∧ bit < 32 ∧ (freeMap w).getLsbD bit = false := by
      intro hnext
      obtain ⟨hw, hclear⟩ := ih hnext
      exact ⟨by omega, hclear⟩
    rw [findClear] at h
    split_ifs at h with hfull
    · split at h
      · rename_i b hfind
        obtain ⟨rfl, rfl⟩ := Prod.mk.inj (Option.some.inj h)
        have hclear := List.find?_some hfind
        exact ⟨by omega, List.mem_range.1 (List.mem_of_find?_eq_some hfind), by simpa using hclear⟩
      · exact hnext h
    · exact hnext h

theorem alloc_dirent_spec (freeMap : ℕ → BitVec 32) (range : Bool) :
    ((alloc_dirent freeMap range).2 ≠ 0 → (alloc_dirent freeMap range).2 < 2 ^ 32 ∧
      ¬Taken freeMap (alloc_dirent freeMap range).2 ∧
      Taken (alloc_dirent freeMap range).1 (alloc_dirent freeMap range).2) ∧
    ∀ i, Taken freeMap i → Taken (alloc_dirent freeMap range).1 i := by
  unfold alloc_dirent
  cases hfind : findClear freeMap max_w 0 with
  | none => exact ⟨fun h => absurd rfl h, fun _ h => h⟩
  | some found =>
    obtain ⟨w, bit⟩ := found
    obtain ⟨hw, hbit, hclear⟩ := findClear_spec hfind
    have hdiv : (w * 32 + bit) / 32 = w := by omega
    have hmod : (w * 32 + bit) % 32 = bit := by omega
    refine ⟨fun hne => ?_, fun i hi => ?_⟩
    · have hentno : (if range = true then w * 32 + bit else 0) = w * 32 + bit := by
        cases range with
        | true => rfl
        | false => exact absurd rfl hne
      simp only [hentno, Taken, hdiv, hmod, update_self]
      refine ⟨?_, by rw [hclear]; exact Bool.false_ne_true, ?_⟩
      · simp only [max_w] at hw
        omega
      · rw [BitVec.getLsbD_or, BitVec.getLsbD_twoPow]
        simp [hbit]
    · simp only [Taken] at hi ⊢
      by_cases hiw : i / 32 = w
      · rw [hiw] at hi ⊢
        rw [update_self, BitVec.getLsbD_or, hi, Bool.true_or]
      · rw [update_of_ne hiw]
        exact hi

theorem taken_free_dirent (h : Taken freeMap i) (hne : i ≠ n) : Taken (free_dirent freeMap n) i := by
  simp only [Taken, free_dirent] at h ⊢
  by_cases hdiv : i / 32 = n / 32
  · have hmod : n % 32 ≠ i % 32 := fun hmod => hne (by omega)
    have hlt : i % 32 < 32 := Nat.mod_lt _ (by decide)
    rw [hdiv] at h ⊢
    rw [update_self, BitVec.getLsbD_and, h, BitVec.getLsbD_not, BitVec.getLsbD_twoPow]
    simp [hlt, hmod]
  · rw [update_of_ne hdiv]
    exact h

/-! ## Maps -/

/-- The answer of a map to a message. `space` is whether there is a number for a new entry. -/
def step (m : List UInt8 → Option Key) (space : Bool) (msg : Msg Key) :
    (List UInt8 → Option Key) × Response Key :=
  match msg.request with
  | .get =>
    match m msg.name with
    | none => (m, ⟨.notFound, none⟩)
    | some key => (m, ⟨.ok, some key⟩)
  | .put key _ =>
    match m msg.name with
    | some _ => (m, ⟨.exists, none⟩)
    | none =>
      if space = true then (update m msg.name (some key), ⟨.ok, none⟩) else (m, ⟨.noSpace, none⟩)
  | .delete =>
    match m msg.name with
    | none => (m, ⟨.notFound, none⟩)
    | some _ => (update m msg.name none, ⟨.ok, none⟩)

variable {used used' : List (ℕ × List UInt8)} {slots : ℕ → Key} {m : List UInt8 → Option Key} {name : List UInt8}

/-- The entries in use have different names and different numbers, and the keys of the map are in their slots. -/
structure Represents (used : List (ℕ × List UInt8)) (freeMap : ℕ → BitVec 32) (slots : ℕ → Key)
    (m : List UInt8 → Option Key) : Prop where
  names : (used.map Prod.snd).Nodup
  numbers : (used.map Prod.fst).Nodup
  taken : ∀ u ∈ used, Taken freeMap u.1
  map : ∀ name key, m name = some key ↔ ∃ entno, (entno, name) ∈ used ∧ slots entno = key

section Represents

variable (h : Represents used freeMap slots m)
include h

theorem Represents.perm (hperm : used'.Perm used) :
    Represents used' freeMap slots m where
  names := ((hperm.map _).nodup_iff).2 h.names
  numbers := ((hperm.map _).nodup_iff).2 h.numbers
  taken u hu := h.taken u (hperm.mem_iff.1 hu)
  map name key := (h.map name key).trans (exists_congr fun _ => and_congr_left' hperm.mem_iff.symm)

theorem Represents.map_of_mem (hmem : (entno, name) ∈ used) :
    m name = some (slots entno) := (h.map _ _).2 ⟨entno, hmem, rfl⟩

theorem Represents.map_eq_none (hnot : ∀ u ∈ used, u.2 ≠ name) :
    m name = none := by
  refine Option.eq_none_iff_forall_ne_some.2 fun key hkey => ?_
  obtain ⟨entno, hmem, -⟩ := (h.map _ _).1 hkey
  exact hnot _ hmem rfl

theorem Represents.mono (hmono : ∀ i, Taken freeMap i → Taken freeMap' i) :
    Represents used freeMap' slots m :=
  ⟨h.names, h.numbers, fun u hu => hmono _ (h.taken u hu), h.map⟩

theorem Represents.insert (hname : ∀ u ∈ used, u.2 ≠ name)
    (hentno : ¬Taken freeMap entno) (htaken : Taken freeMap' entno)
    (hmono : ∀ i, Taken freeMap i → Taken freeMap' i) (key : Key) :
    Represents ((entno, name) :: used) freeMap' (update slots entno key)
      (update m name (some key)) := by
  have hnumber : ∀ u ∈ used, u.1 ≠ entno := fun u hu heq => hentno (heq ▸ h.taken u hu)
  refine ⟨?_, ?_, ?_, fun name' key' => ?_⟩
  · rw [List.map_cons, List.nodup_cons, List.mem_map]
    exact ⟨fun ⟨u, hu, heq⟩ => hname u hu heq, h.names⟩
  · rw [List.map_cons, List.nodup_cons, List.mem_map]
    exact ⟨fun ⟨u, hu, heq⟩ => hnumber u hu heq, h.numbers⟩
  · exact List.forall_mem_cons.2 ⟨htaken, fun u hu => hmono _ (h.taken u hu)⟩
  · by_cases heq : name' = name
    · subst heq
      rw [update_self, Option.some_inj]
      constructor
      · rintro rfl
        exact ⟨entno, List.mem_cons_self, update_self _ _ _⟩
      · rintro ⟨entno', hmem, hslot⟩
        obtain hmem | hmem := List.mem_cons.1 hmem
        · obtain ⟨rfl, -⟩ := Prod.mk.inj hmem
          rwa [update_self] at hslot
        · exact absurd rfl (hname _ hmem)
    · rw [update_of_ne heq, h.map]
      refine exists_congr fun entno' => ?_
      rw [List.mem_cons, or_iff_right fun hmem => heq (Prod.mk.inj hmem).2]
      refine and_congr_right fun hmem => ?_
      rw [update_of_ne (hnumber _ hmem)]

end Represents

theorem Represents.remove (h : Represents ((entno, name) :: used) freeMap slots m) (void : Key) :
    Represents used (free_dirent freeMap entno) (update slots entno void)
      (update m name none) := by
  obtain ⟨hname, hnames⟩ := List.nodup_cons.1 (List.map_cons ▸ h.names)
  obtain ⟨hentno, hnumbers⟩ := List.nodup_cons.1 (List.map_cons ▸ h.numbers)
  have hname : ∀ u ∈ used, u.2 ≠ name := fun u hu heq => hname (List.mem_map.2 ⟨u, hu, heq⟩)
  have hnumber : ∀ u ∈ used, u.1 ≠ entno := fun u hu heq => hentno (List.mem_map.2 ⟨u, hu, heq⟩)
  refine ⟨hnames, hnumbers, fun u hu => ?_, fun name' key' => ?_⟩
  · exact taken_free_dirent (h.taken u (List.mem_cons_of_mem _ hu)) (hnumber u hu)
  · by_cases heq : name' = name
    · subst heq
      rw [update_self]
      exact iff_of_false (fun hsome => by cases hsome) fun ⟨_, hmem, _⟩ => hname _ hmem rfl
    · rw [update_of_ne heq, h.map]
      refine exists_congr fun entno' => ?_
      rw [List.mem_cons, or_iff_right fun hmem => heq (Prod.mk.inj hmem).2]
      refine and_congr_right fun hmem => ?_
      rw [update_of_ne (hnumber _ hmem)]

/-! ## The simulation -/

/-- The directory stands for the map. -/
structure Sim (s : State Key) (m : List UInt8 → Option Key) (pages : List (List Ent)) : Prop where
  layout : Layout s.mem pages s.dir_top
  represents : Represents (usedEnts pages.flatten) s.freeMap s.slots m

/-- There is a number for a new entry. -/
def State.hasSpace (s : State Key) (msg : Msg Key) : Bool :=
  match msg.request with
  | .put _ range => decide ((alloc_dirent s.freeMap range).2 ≠ 0)
  | _ => false

/-- What is written is in the place of one entry, or in a new page. -/
def Confined (s s' : State Key) (pages : List (List Ent)) : Prop :=
  s'.mem = s.mem ∨ ∃ a n, ((∃ l e r, pages.flatten = l ++ e :: r ∧ a = total Ent.reclen l ∧ n = e.reclen) ∨
    (a = s.dir_top ∧ n = EROS_PAGE_SIZE)) ∧ ∀ i, i < a ∨ a + n ≤ i → s'.mem i = s.mem i

/-- The messages that are answered as by a map. -/
def Proper (limit : ℕ) (s : State Key) (msg : Msg Key) : Prop :=
  match msg.request with
  | .put _ _ => ∃ pages, Layout s.mem pages s.dir_top ∧ ((∀ u ∈ usedEnts pages.flatten, u.2 ≠ msg.name) →
      Roomy (entryLen msg.name) (s.dir_top + EROS_PAGE_SIZE ≤ limit) pages)
  | _ => True

variable {s s' : State Key} {pages front back : List (List Ent)} {l r es : List Ent} {e : Ent}
  {msg : Msg Key} {dp fuel fuel' limit : ℕ}

theorem Msg.length_name_le (msg : Msg Key) : msg.name.length ≤ MAXNAMLEN :=
  ((List.takeWhile_sublist _).length_le).trans (List.length_take_le _ _)

theorem entryLen_le (h : name.length ≤ MAXNAMLEN) : entryLen name ≤ 264 := by
  simp only [MAXNAMLEN] at h
  unfold entryLen
  omega

theorem usedEnts_page (front : List (List Ent)) (l es r : List Ent) (back : List (List Ent)) :
    usedEnts (front ++ (l ++ es ++ r) :: back).flatten =
      usedEnts (front.flatten ++ l) ++ (usedEnts es ++ usedEnts (r ++ back.flatten)) := by
  simp

/-- An entry is made in the place of one that is not in use. -/
theorem Sim.insert_dirent (h : Sim s m (front ++ (l ++ ⟨n, none⟩ :: r) :: back))
    (hdp : dp = total Ent.reclen (front.flatten ++ l)) (hname : name.length ≤ MAXNAMLEN)
    (hle : entryLen name + 8 ≤ n)
    (hnot : ∀ u ∈ usedEnts (front ++ (l ++ ⟨n, none⟩ :: r) :: back).flatten, u.2 ≠ name) (key : Key) (range : Bool) :
    ∃ pages', Sim (s.insert_dirent dp name key range).1
        (if (alloc_dirent s.freeMap range).2 ≠ 0 then update m name (some key) else m) pages' ∧
      (s.insert_dirent dp name key range).2 =
        (if (alloc_dirent s.freeMap range).2 ≠ 0 then ⟨.ok, none⟩ else ⟨.noSpace, none⟩) ∧
      (s.insert_dirent dp name key range).1.dir_top = s.dir_top ∧
      ∀ i, i < dp ∨ dp + n ≤ i → (s.insert_dirent dp name key range).1.mem i = s.mem i := by
  obtain ⟨hlayout, hrep⟩ := h
  obtain ⟨hnumber, hmono⟩ := alloc_dirent_spec s.freeMap range
  unfold State.insert_dirent
  generalize alloc_dirent s.freeMap range = out at hnumber hmono
  obtain ⟨freeMap, entno⟩ := out
  dsimp only at hnumber hmono ⊢
  by_cases hzero : entno = 0
  · rw [if_pos hzero, if_neg (not_not.2 hzero), if_neg (not_not.2 hzero)]
    exact ⟨_, ⟨hlayout, hrep.mono hmono⟩, rfl, rfl, fun _ _ => rfl⟩
  · obtain ⟨hlt, hfree, htaken⟩ := hnumber hzero
    rw [if_neg hzero, if_pos hzero, if_pos hzero]
    have hat : At s.mem dp ⟨n, none⟩ := hdp ▸ hlayout.at_entry
    have hsame : ∀ i, i < dp ∨ dp + n ≤ i → writeEntry s.mem dp entno name i = s.mem i :=
      fun i hi => writeEntry_of_ne (by omega)
    have hnew := @at_writeEntry s.mem dp n entno name hat hlt hname (by omega)
    refine ⟨_, ⟨@Layout.replace s.mem _ _ l r [⟨n, some (entno, name)⟩] _ front back hlayout
      (hdp ▸ ⟨hnew, trivial⟩) rfl (hdp ▸ hsame), ?_⟩, rfl, rfl, hsame⟩
    refine (hrep.insert hnot hfree htaken hmono key).perm ?_
    have hbefore := usedEnts_page front l [⟨n, none⟩] r back
    rw [List.append_assoc, List.singleton_append] at hbefore
    rw [usedEnts_page, hbefore]
    exact List.perm_middle

theorem Sim.newPage (h : Sim s m pages) : Sim s.newPage m (pages ++ [[⟨EROS_PAGE_SIZE, none⟩]]) := by
  refine ⟨h.layout.newPage, ?_⟩
  have hused : usedEnts (pages ++ [[(⟨EROS_PAGE_SIZE, none⟩ : Ent)]]).flatten = usedEnts pages.flatten := by
    simp [usedEnts]
  exact hused ▸ h.represents

theorem Sim.vacate (h : Sim s m (front ++ (l ++ e :: r) :: back))
    (hdp : dp = total Ent.reclen (front.flatten ++ l)) (hfree : 12 ≤ e.free) :
    Sim { s with mem := (vacate s.mem dp e).1 } m (front ++ ((l ++ e.front) ++ ⟨e.free, none⟩ :: r) :: back) ∧
      usedEnts (front ++ ((l ++ e.front) ++ ⟨e.free, none⟩ :: r) :: back).flatten =
        usedEnts (front ++ (l ++ e :: r) :: back).flatten ∧
      (Directory.vacate s.mem dp e).2 = total Ent.reclen (front.flatten ++ (l ++ e.front)) ∧
      (Directory.vacate s.mem dp e).2 + e.free = dp + e.reclen ∧
      ∀ i, i < dp ∨ dp + e.reclen ≤ i → (Directory.vacate s.mem dp e).1 i = s.mem i := by
  obtain ⟨hlayout, hrep⟩ := h
  subst hdp
  have hat := hlayout.at_entry
  obtain ⟨haddr, hlaid, hsame⟩ := laid_vacate hat hfree
  have htotal : total Ent.reclen (e.front ++ [⟨e.free, none⟩]) = e.reclen := by
    rw [total_append, total_cons, total_nil]
    exact hat.total_front
  have hlayout' := hlayout.replace hlaid htotal hsame
  have hpage : l ++ (e.front ++ [⟨e.free, none⟩]) ++ r = (l ++ e.front) ++ ⟨e.free, none⟩ :: r := by simp
  have hents : usedEnts (front ++ ((l ++ e.front) ++ ⟨e.free, none⟩ :: r) :: back).flatten =
      usedEnts (front ++ (l ++ e :: r) :: back).flatten := by
    have hused : usedEnts (e.front ++ [⟨e.free, none⟩]) = usedEnts [e] := by
      rw [usedEnts_append]
      unfold Ent.front
      cases hused : e.used with
      | none | some u => simp [usedEnts, hused]
    have hbefore := usedEnts_page front l [e] r back
    rw [List.append_assoc, List.singleton_append] at hbefore
    rw [← hpage, usedEnts_page, hused, hbefore]
  refine ⟨⟨hpage ▸ hlayout', hents ▸ hrep⟩, hents, ?_, ?_, hsame⟩
  · rw [haddr, ← List.append_assoc]
    exact total_append.symm
  · have hfront := hat.total_front
    omega

/-! ## More fuel -/

variable {mem : Memory} {top offset bytes free free_bytes len : ℕ}

theorem find_succ {out : Option ℕ} (h : find mem top name fuel dp = some out) :
    find mem top name (fuel + 1) dp = some out := by
  induction fuel generalizing dp with
  | zero => cases h
  | succ fuel ih =>
    rw [find] at h ⊢
    split_ifs at h ⊢ with htop hmatch
    · exact h
    · exact ih h
    · exact h

theorem coalesceLoop_succ {out : Memory × ℕ} (h : coalesceLoop dp fuel mem offset bytes free = some out) :
    coalesceLoop dp (fuel + 1) mem offset bytes free = some out := by
  induction fuel generalizing mem offset bytes free with
  | zero => cases h
  | succ fuel ih =>
    rw [coalesceLoop] at h ⊢
    by_cases hpage : bytes < EROS_PAGE_SIZE
    · rw [if_pos hpage] at h ⊢
      by_cases hfree : d_inuse mem dp = 0
      · rw [if_pos hfree] at h ⊢
        exact ih h
      · rw [if_neg hfree] at h ⊢
        exact ih h
    · rw [if_neg hpage] at h ⊢
      exact h

theorem scanPage_succ {out : PageScan} (h : scanPage mem len fuel dp bytes free_bytes = some out) :
    scanPage mem len (fuel + 1) dp bytes free_bytes = some out := by
  induction fuel generalizing dp bytes free_bytes with
  | zero => cases h
  | succ fuel ih =>
    rw [scanPage] at h ⊢
    dsimp only at h ⊢
    split_ifs at h ⊢ with hpage hfree hused
    · exact h
    · exact h
    · exact ih h
    · exact h

theorem find_space_succ {out : Option (Memory × ℕ)} (h : find_space mem top len fuel dp = some out) :
    find_space mem top len (fuel + 1) dp = some out := by
  induction fuel generalizing dp with
  | zero => cases h
  | succ fuel ih =>
    rw [find_space] at h ⊢
    by_cases htop : dp ≠ top
    · rw [if_pos htop] at h ⊢
      cases hscan : scanPage mem len fuel dp 0 0 with
      | none =>
        rw [hscan] at h
        cases h
      | some found =>
        rw [hscan] at h
        rw [scanPage_succ hscan]
        cases found with
        | found mem' dp' => exact h
        | pageEnd dp' free_bytes =>
          dsimp only at h ⊢
          by_cases hlen : len ≤ free_bytes
          · rw [if_pos hlen, coalesce_page] at h ⊢
            rw [Option.map_map] at h ⊢
            obtain ⟨found, hloop, hout⟩ := Option.map_eq_some_iff.1 h
            rw [coalesceLoop_succ hloop]
            exact congrArg some hout
          · rw [if_neg hlen] at h ⊢
            exact ih h
    · rw [if_neg htop] at h ⊢
      exact h

theorem processRequest_succ {out : State Key × Response Key} (h : s.processRequest fuel limit void msg = some out) :
    s.processRequest (fuel + 1) limit void msg = some out := by
  unfold State.processRequest at h ⊢
  cases hrequest : msg.request with
  | get =>
    rw [hrequest] at h
    obtain ⟨found, hfind, hout⟩ := Option.map_eq_some_iff.1 h
    dsimp only [State.lookup]
    rw [find_succ hfind]
    exact congrArg some hout
  | put key range =>
    rw [hrequest] at h
    dsimp only [State.link] at h ⊢
    cases hfind : find s.mem s.dir_top msg.name fuel 0 with
    | none =>
      rw [hfind] at h
      cases h
    | some found =>
      rw [hfind] at h
      rw [find_succ hfind]
      cases found with
      | some dp => exact h
      | none =>
        cases hspace : find_space s.mem s.dir_top (entryLen msg.name) fuel 0 with
        | none =>
          rw [hspace] at h
          cases h
        | some place =>
          rw [hspace] at h
          rw [find_space_succ hspace]
          exact h
  | delete =>
    rw [hrequest] at h
    obtain ⟨found, hfind, hout⟩ := Option.map_eq_some_iff.1 h
    dsimp only [State.unlink]
    rw [find_succ hfind]
    exact congrArg some hout

theorem processRequest_mono {out : State Key × Response Key} (hle : fuel ≤ fuel')
    (h : s.processRequest fuel limit void msg = some out) : s.processRequest fuel' limit void msg = some out := by
  induction fuel', hle using Nat.le_induction with
  | base => exact h
  | succ _ _ ih => exact processRequest_succ ih

theorem processRequest_unique {out out' : State Key × Response Key}
    (h : s.processRequest fuel limit void msg = some out)
    (h' : s.processRequest fuel' limit void msg = some out') : out = out' := by
  obtain hf | hf := Nat.le_total fuel fuel'
  · exact Option.some.inj ((processRequest_mono hf h).symm.trans h')
  · exact Option.some.inj (h.symm.trans (processRequest_mono hf h'))

/-! ## The requests -/

/-- The entry with a name that is found. -/
structure Found (s : State Key) (pages : List (List Ent)) (name : List UInt8) (dp entno : ℕ) : Prop where
  d_entno : d_entno s.mem dp = entno
  place : ∃ front l e r back, pages = front ++ (l ++ e :: r) :: back ∧
    dp = total Ent.reclen (front.flatten ++ l) ∧ e.used = some (entno, name)

theorem Sim.find (h : Sim s m pages) (name : List UInt8) (hfuel : pages.flatten.length < fuel) :
    (find s.mem s.dir_top name fuel 0 = some none ∧ (∀ u ∈ usedEnts pages.flatten, u.2 ≠ name)) ∨
      ∃ dp entno, find s.mem s.dir_top name fuel 0 = some (some dp) ∧ Found s pages name dp entno := by
  have hlayout := h.layout
  have htop : s.dir_top = 0 + total Ent.reclen pages.flatten := by rw [Nat.zero_add, hlayout.top]
  obtain hnone | ⟨l, e, r, entno, hpages, hused, hsome⟩ :=
    @find_spec s.mem 0 fuel s.dir_top pages.flatten name hlayout.laid htop hfuel
  · exact .inl hnone
  · obtain ⟨front, p, q, back, rfl, rfl, rfl⟩ := exists_page hpages
    have hat := hlayout.at_entry
    have hholds := hat.holds
    rw [hused] at hholds
    rw [Nat.zero_add] at hsome
    exact .inr ⟨_, entno, hsome, hholds.2.1, front, p, e, q, back, rfl, rfl, hused⟩

theorem Found.perm (h : Found s pages name dp entno) : ∃ front l e r back, pages = front ++ (l ++ e :: r) :: back ∧
    dp = total Ent.reclen (front.flatten ++ l) ∧
    ((entno, name) :: (usedEnts (front.flatten ++ l) ++ usedEnts (r ++ back.flatten))).Perm
      (usedEnts pages.flatten) := by
  obtain ⟨front, l, e, r, back, rfl, hdp, hused⟩ := h.place
  refine ⟨front, l, e, r, back, rfl, hdp, ?_⟩
  have hpage := usedEnts_page front l [e] r back
  have hone : usedEnts [e] = [(entno, name)] := by simp [usedEnts, hused]
  rw [List.append_assoc, List.singleton_append, hone, List.singleton_append] at hpage
  rw [hpage]
  exact List.perm_middle.symm

theorem Sim.map_of_found (h : Sim s m pages) (hfound : Found s pages name dp entno) :
    m name = some (s.slots entno) := by
  obtain ⟨_, _, _, _, _, -, -, hperm⟩ := hfound.perm
  exact h.represents.map_of_mem (hperm.mem_iff.1 List.mem_cons_self)

theorem Sim.lookup (h : Sim s m pages) (name : List UInt8) :
    ∃ fuel, s.lookup fuel name = some (s, match m name with
      | none => ⟨.notFound, none⟩
      | some key => ⟨.ok, some key⟩) := by
  refine ⟨pages.flatten.length + 1, ?_⟩
  rw [State.lookup]
  obtain ⟨hnone, hnot⟩ | ⟨dp, entno, hsome, hfound⟩ := h.find name (Nat.lt_succ_self _)
  · rw [hnone, h.represents.map_eq_none hnot]
    rfl
  · rw [hsome, h.map_of_found hfound, ← hfound.d_entno]
    rfl

theorem Sim.unlink (h : Sim s m pages) (void : Key) (name : List UInt8) :
    ∃ fuel s' pages', s.unlink fuel void name = some (s', match m name with
        | none => ⟨.notFound, none⟩
        | some _ => ⟨.ok, none⟩) ∧
      Sim s' (match m name with
        | none => m
        | some _ => update m name none) pages' ∧ Confined s s' pages := by
  refine ⟨pages.flatten.length + 1, ?_⟩
  rw [State.unlink]
  obtain ⟨hnone, hnot⟩ | ⟨dp, entno, hsome, hfound⟩ := h.find name (Nat.lt_succ_self _)
  · rw [hnone, h.represents.map_eq_none hnot]
    exact ⟨s, pages, rfl, h, .inl rfl⟩
  · rw [hsome, h.map_of_found hfound]
    obtain ⟨front, l, e, r, back, rfl, hdp, hperm⟩ := hfound.perm
    obtain ⟨hlayout, hrep⟩ := h
    subst hdp
    have hat := hlayout.at_entry
    have hmin := hat.le
    have hsame : ∀ i, i < total Ent.reclen (front.flatten ++ l) ∨
        total Ent.reclen (front.flatten ++ l) + e.reclen ≤ i →
        setInuse s.mem (total Ent.reclen (front.flatten ++ l)) 0 i = s.mem i := by
      rintro i (hi | hi)
      · exact write_of_lt (by omega)
      · exact write_of_le (by rw [List.length_singleton]; omega)
    -- The entry keeps its length.
    have hnew : At (setInuse s.mem (total Ent.reclen (front.flatten ++ l)) 0) (total Ent.reclen (front.flatten ++ l))
        ⟨e.reclen, none⟩ := by
      refine ⟨?_, hmin, hat.aligned, @write_replicate s.mem _ _ 1 0 le_rfl (Nat.lt_succ_self _)⟩
      rw [← hat.reclen, d_reclen, setInuse, getField_write (by omega)]
      rfl
    have hlayout' := @Layout.replace s.mem _ _ l r [⟨e.reclen, none⟩] e front back hlayout ⟨hnew, trivial⟩ rfl hsame
    refine ⟨_, _, rfl, ⟨hlayout', ?_⟩, .inr ⟨_, e.reclen, .inl ⟨front.flatten ++ l, e, r ++ back.flatten, ?_, rfl, rfl⟩,
      hsame⟩⟩
    · rw [usedEnts_page]
      have hremoved := (hrep.perm hperm).remove void
      rw [hfound.d_entno]
      exact hremoved
    · simp

theorem Sim.link (h : Sim s m pages) (hname : name.length ≤ MAXNAMLEN)
    (hroomy : (∀ u ∈ usedEnts pages.flatten, u.2 ≠ name) →
      Roomy (entryLen name) (s.dir_top + EROS_PAGE_SIZE ≤ limit) pages) (key : Key) (range : Bool) :
    ∃ fuel s' pages', s.link fuel limit name key range = some (s', match m name with
        | some _ => ⟨.exists, none⟩
        | none => if (alloc_dirent s.freeMap range).2 ≠ 0 then ⟨.ok, none⟩ else ⟨.noSpace, none⟩) ∧
      Sim s' (match m name with
        | some _ => m
        | none => if (alloc_dirent s.freeMap range).2 ≠ 0 then update m name (some key) else m) pages' ∧
      Confined s s' pages := by
  refine ⟨pages.length + pages.flatten.length + 1, ?_⟩
  rw [State.link]
  have hsize := entryLen_le hname
  have hmin := le_entryLen name
  obtain ⟨hnone, hnot⟩ | ⟨dp, entno, hsome, hfound⟩ := h.find name (Nat.lt_succ_of_le (Nat.le_add_left _ pages.length))
  · have hlayout := h.layout
    have htop : s.dir_top = 0 + total Ent.reclen pages.flatten := by rw [Nat.zero_add, hlayout.top]
    rw [hnone, h.represents.map_eq_none hnot]
    obtain ⟨hspace, hroom⟩ | ⟨front, l, e, r, back, rfl, hfits, hspace⟩ :=
      find_space_spec (roomy_iff.1 (hroomy hnot)) hlayout.laid hlayout.full htop (Nat.lt_succ_self _)
    · -- The entry is in a new page.
      have hpage : Sim s.newPage m (pages ++ (([] : List Ent) ++ (⟨EROS_PAGE_SIZE, none⟩ : Ent) :: []) :: []) := h.newPage
      have hnot' : ∀ u ∈ usedEnts (pages ++ (([] : List Ent) ++ (⟨EROS_PAGE_SIZE, none⟩ : Ent) :: []) :: []).flatten,
          u.2 ≠ name := by
        simpa [usedEnts] using hnot
      have hdp : s.dir_top = total Ent.reclen (pages.flatten ++ []) := by rw [List.append_nil, hlayout.top]
      obtain ⟨pages', hsim, hresponse, -, hsame⟩ := hpage.insert_dirent hdp hname
        (show entryLen name + 8 ≤ EROS_PAGE_SIZE by simp only [EROS_PAGE_SIZE]; omega) hnot' key range
      simp only [hspace, if_pos hroom]
      refine ⟨_, pages', congrArg some (Prod.ext rfl hresponse), hsim, .inr ⟨s.dir_top, EROS_PAGE_SIZE, .inr ⟨rfl, rfl⟩,
        fun i hi => (hsame i hi).trans ?_⟩⟩
      obtain hi | hi := hi
      · exact write_of_lt hi
      · have hlen : blank_page.length = 12 := rfl
        exact write_of_le (by simp only [EROS_PAGE_SIZE] at hi; omega)
    · -- The entry is in the free bytes of another one.
      rw [Nat.zero_add] at hspace
      obtain ⟨hvacated, hused, haddr, hend, hsame⟩ := h.vacate rfl (by omega)
      obtain ⟨pages', hsim, hresponse, -, hsame'⟩ :=
        hvacated.insert_dirent haddr hname hfits (hused ▸ hnot) key range
      simp only [hspace]
      refine ⟨_, pages', congrArg some (Prod.ext rfl hresponse), hsim, .inr ⟨total Ent.reclen (front.flatten ++ l),
        e.reclen, .inl ⟨front.flatten ++ l, e, r ++ back.flatten, by simp, rfl, rfl⟩, fun i hi => ?_⟩⟩
      have hle := e.free_le
      exact (hsame' i (by omega)).trans (hsame i hi)
  · rw [hsome, h.map_of_found hfound]
    exact ⟨s, pages, rfl, h, .inl rfl⟩

theorem Sim.step (h : Sim s m pages) (hproper : Proper limit s msg) (void : Key) :
    ∃ fuel s' pages', s.processRequest fuel limit void msg = some (s', (step m (s.hasSpace msg) msg).2) ∧
      Sim s' (Directory.step m (s.hasSpace msg) msg).1 pages' ∧ Confined s s' pages := by
  unfold State.processRequest Directory.step State.hasSpace
  cases hrequest : msg.request with
  | get =>
    obtain ⟨fuel, hrun⟩ := h.lookup msg.name
    refine ⟨fuel, s, pages, ?_, ?_, .inl rfl⟩
    · rw [hrun]
      cases m msg.name with
      | none | some key => rfl
    · cases m msg.name with
      | none | some key => exact h
  | put key range =>
    rw [Proper, hrequest] at hproper
    obtain ⟨pages', hlayout, hroomy⟩ := hproper
    obtain rfl := h.layout.unique hlayout
    obtain ⟨fuel, s', pages', hrun, hsim, hconfined⟩ := h.link msg.length_name_le hroomy key range
    refine ⟨fuel, s', pages', hrun.trans ?_, ?_, hconfined⟩
    · cases m msg.name with
      | none =>
        simp only [decide_eq_true_eq]
        split_ifs
        · rfl
        · rfl
      | some key' => rfl
    · cases hkey : m msg.name with
      | none =>
        rw [hkey] at hsim
        simp only [decide_eq_true_eq]
        split_ifs at hsim ⊢
        · exact hsim
        · exact hsim
      | some key' =>
        rw [hkey] at hsim
        exact hsim
  | delete =>
    obtain ⟨fuel, s', pages', hrun, hsim, hconfined⟩ := h.unlink void msg.name
    refine ⟨fuel, s', pages', ?_, ?_, hconfined⟩
    · rw [hrun]
      cases m msg.name with
      | none | some key => rfl
    · cases hkey : m msg.name with
      | none | some key =>
        rw [hkey] at hsim
        exact hsim

/-! ## Runs -/

/-- The map of a new directory. -/
def initMap (self parent : Key) : List UInt8 → Option Key :=
  update (update (fun _ => none) [46, 46] (some parent)) [46] (some self)

/-- The entries of a new directory. -/
def initPage : List Ent := [⟨12, some (0, [46])⟩, ⟨EROS_PAGE_SIZE - 12, some (1, [46, 46])⟩]

theorem init_sim (void self parent : Key) :
    Sim (State.init void self parent) (initMap self parent) [initPage] := by
  have hdot : At (write (fun _ => 0) 0 template) 0 ⟨12, some (0, [46])⟩ :=
    ⟨by decide, by decide, by decide, by decide, by decide, by decide, ⟨by decide, by decide⟩, by decide⟩
  have hdotdot : At (write (fun _ => 0) 0 template) 12 ⟨EROS_PAGE_SIZE - 12, some (1, [46, 46])⟩ :=
    ⟨by decide, by decide, by decide, by decide, by decide, by decide, ⟨by decide, by decide⟩, by decide⟩
  have hused : usedEnts [initPage].flatten = [(0, [46]), (1, [46, 46])] := rfl
  refine ⟨⟨⟨hdot, hdotdot, trivial⟩, fun p hp => ?_, rfl⟩, hused ▸ ⟨by decide, by decide, ?_, fun name key => ?_⟩⟩
  · rw [List.mem_singleton.1 hp]
    rfl
  · have htaken : (alloc_dirent (alloc_dirent (fun _ => 0) true).1 true).1 0 = 3 := rfl
    exact List.forall_mem_cons.2 ⟨congrArg (BitVec.getLsbD · 0) htaken,
      List.forall_mem_cons.2 ⟨congrArg (BitVec.getLsbD · 1) htaken, fun u hu => by cases hu⟩⟩
  · simp only [initMap, State.init, update_apply, List.mem_cons, Prod.mk.injEq, List.not_mem_nil, or_false]
    by_cases hdot : name = [46]
    · subst hdot
      simp
    · by_cases hdotdot : name = [46, 46]
      · subst hdotdot
        simp
      · simp [hdot, hdotdot]

/-- The states of a directory and of the map after sequences of admitted messages. -/
inductive Run (limit : ℕ) (void : Key) (admitted : State Key → Msg Key → Prop) :
    State Key → (List UInt8 → Option Key) → Prop where
  | init (self parent : Key) : Run limit void admitted (.init void self parent) (initMap self parent)
  | step {s s' : State Key} {m : List UInt8 → Option Key} {r : Response Key} {fuel : ℕ} (msg : Msg Key) :
      Run limit void admitted s m → admitted s msg →
      s.processRequest fuel limit void msg = some (s', r) →
      Run limit void admitted s' (Directory.step m (s.hasSpace msg) msg).1

theorem Run.sim (h : Run limit void (Proper limit) s m) : ∃ pages, Sim s m pages := by
  induction h with
  | init self parent => exact ⟨_, init_sim void self parent⟩
  | step msg _ hproper hrun ih =>
    obtain ⟨pages, hsim⟩ := ih
    obtain ⟨fuel, s', pages', hrun', hsim', -⟩ := hsim.step hproper void
    obtain ⟨rfl, -⟩ := Prod.mk.inj (processRequest_unique hrun hrun')
    exact ⟨pages', hsim'⟩

/-- What is claimed of a directory, and of the messages that are admitted in its state. -/
structure Correct (limit : ℕ) (void : Key) (admitted : Msg Key → Prop) (s : State Key)
    (m : List UInt8 → Option Key) : Prop where
  /-- The entries tile the pages. -/
  tiled : ∃ pages, Layout s.mem pages s.dir_top
  /-- A message is answered as by the map, and only an entry or a new page is written. -/
  answers : ∀ {msg}, admitted msg → ∃ fuel s',
    s.processRequest fuel limit void msg = some (s', (step m (s.hasSpace msg) msg).2) ∧
      ∃ pages, Layout s.mem pages s.dir_top ∧ Confined s s' pages

/-- In the runs of proper messages, the directory answers as a finite map. -/
theorem directory_proper (h : Run limit void (Proper limit) s m) : Correct limit void (Proper limit s) s m where
  tiled := by
    obtain ⟨pages, hsim⟩ := h.sim
    exact ⟨pages, hsim.layout⟩
  answers hproper := by
    obtain ⟨pages, hsim⟩ := h.sim
    obtain ⟨fuel, s', pages', hrun, -, hconfined⟩ := hsim.step hproper void
    exact ⟨fuel, s', hrun, pages, hsim.layout, hconfined⟩

/-- A message of a client. -/
def put (name : List UInt8) (key : ℕ) : Msg ℕ := ⟨name, .put key true⟩

/-- A key is linked in a new directory. -/
theorem directory_proper_linked : ∃ s m, m [97] = some 7 ∧ Correct 8192 0 (Proper 8192 s) s m := by
  have hroomy : Roomy 12 (EROS_PAGE_SIZE + EROS_PAGE_SIZE ≤ 8192) [initPage] := show 12 + 8 ≤ 4072 by decide
  have hproper : Proper 8192 (State.init 0 1 2) (put [97] 7) := ⟨_, (init_sim 0 1 2).layout, fun _ => hroomy⟩
  obtain ⟨fuel, s', pages', hrun, -⟩ := (init_sim 0 1 2).step hproper 0
  exact ⟨s', _, rfl, directory_proper (Run.step _ (.init 1 2) hproper hrun)⟩

/-- The directory and the map after a list of messages, if the fuel is enough. -/
def execAll (fuel limit : ℕ) (void : Key) : List (Msg Key) → State Key → (List UInt8 → Option Key) →
    Option (State Key × (List UInt8 → Option Key))
  | [], s, m => some (s, m)
  | msg :: l, s, m =>
    match s.processRequest fuel limit void msg with
    | none => none
    | some (s', _) => execAll fuel limit void l s' (step m (s.hasSpace msg) msg).1

theorem Run.execAll {l : List (Msg Key)} {out : State Key × (List UInt8 → Option Key)}
    (h : Run limit void (fun _ _ => True) s m) (hexec : execAll fuel limit void l s m = some out) :
    Run limit void (fun _ _ => True) out.1 out.2 := by
  induction l generalizing s m with
  | nil =>
    obtain rfl := Option.some.inj hexec
    exact h
  | cons msg l ih =>
    rw [Directory.execAll] at hexec
    cases hrun : s.processRequest fuel limit void msg with
    | none =>
      rw [hrun] at hexec
      cases hexec
    | some response =>
      rw [hrun] at hexec
      exact ih (h.step msg trivial hrun) hexec

/-- "abcd" and "b" are linked, and "abcd" is unlinked. Then "c" is linked in the place of "abcd", and padded into
the entry of "b", which loses its number. A lookup of "b" answers with the key of the entry 0. -/
theorem directory_fails : ¬∀ (s : State ℕ) (m : List UInt8 → Option ℕ), Run 8192 0 (fun _ _ => True) s m →
    Correct 8192 0 (fun _ => True) s m := by
  intro h
  have hcomputed : (execAll 9 8192 0 [put [97, 98, 99, 100] 7, put [98] 8, ⟨[97, 98, 99, 100], .delete⟩, put [99] 9]
      (State.init 0 1 2) (initMap 1 2)).map (fun out => ((out.1.processRequest 9 8192 0 ⟨[98], .get⟩).map (·.2),
        (step out.2 (out.1.hasSpace ⟨[98], .get⟩) ⟨[98], .get⟩).2)) =
      some (some ⟨.ok, some 1⟩, ⟨.ok, some 8⟩) := by
    decide +kernel
  obtain ⟨⟨s, m⟩, hexec, hout⟩ := Option.map_eq_some_iff.1 hcomputed
  obtain ⟨hcode, hmap⟩ := Prod.mk.inj hout
  obtain ⟨⟨s', r⟩, hrun, hr⟩ := Option.map_eq_some_iff.1 hcode
  obtain ⟨fuel, s'', hrun', -⟩ :=
    @Correct.answers _ _ _ _ _ _ (h s m (Run.execAll (.init 1 2) hexec)) ⟨[98], .get⟩ trivial
  have hresponse := (Prod.mk.inj (processRequest_unique hrun hrun')).2
  dsimp only at hr hmap
  rw [hmap, hr] at hresponse
  exact absurd hresponse (by decide)

end CapROS.Directory
