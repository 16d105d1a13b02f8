import CapROS.LogDirectory.Refinement

/-!
# Finding the version for a journal write

An entry holds the last version of an object that has been recorded, and may hold the one before it.
For a journal write, `ld_findObjectForJournal` is to find the last version that is older than a given
generation and newer than the last one that has been retired. When that is the last version of all,
the procedure returns the location of the version before it.

* `journal_iff`: the versions for which `ld_findObjectForJournal` returns the right location.
-/

namespace CapROS.LogDirectory

open LinkedTree LinkedTree.Tree LinkedRing
open Function (update update_apply update_self update_of_ne update_eq_self)

/-- A version of an object that has been recorded. -/
structure Version where
  od : ObjectDescriptor
  generation : ℕ
  deriving DecidableEq, Repr

/-- Versions of one object have the same counts and type. -/
def Version.Same (v w : Version) : Prop :=
  v.od.allocCount = w.od.allocCount ∧ v.od.callCount = w.od.callCount ∧ v.od.obType = w.od.obType

instance (v w : Version) : Decidable (v.Same w) := inferInstanceAs (Decidable (_ ∧ _ ∧ _))

/-- The versions recorded under each OID that has an entry in the directory, the last one first. -/
abbrev History := ℕ → List Version

/-- The versions after a call. An OID whose entry leaves the directory has none. -/
def Op.history (H : History) : Op → History
  | .record od generation => update H od.oid (⟨od, generation⟩ :: H od.oid)
  | .remove oid => update H oid []
  | .clear generation => fun oid =>
      if (H oid).head?.any fun v => v.generation ≤ generation then [] else H oid
  | .resetScan _ | .findNext _ | .retired _ => H

/-- The versions after the calls, of which the last one comes first. -/
def history : List Op → History
  | [] => fun _ => []
  | op :: ops => op.history (history ops)

/-- The log location that a call records. -/
def Op.locations : Op → List ℕ
  | .record od _ => [od.logLoc]
  | _ => []

/-- The states that the calls lead to, the last one first. None of them fails. -/
inductive JournalRun (D : Directory) : Directory → List Op → Prop
  | init : JournalRun D D []
  | step {D₁ D₂ : Directory} {ops : List Op} {op : Op} (h : JournalRun D D₁ ops)
      (hrun : op.run D₁ = .ok D₂) : JournalRun D D₂ (op :: ops)

/-- The generation is older than the given one and newer than the last retired one. -/
def InRange (D : Directory) (generation g : ℕ) : Prop :=
  g < generation ∧ D.lastRetiredGeneration < g

instance (D : Directory) (generation g : ℕ) : Decidable (InRange D generation g) :=
  inferInstanceAs (Decidable (_ ∧ _))

/-- The versions of the object to which the last one belongs. -/
def ofObject : List Version → List Version
  | [] => []
  | v :: older => v :: older.filter fun w => v.Same w

/-- `ld_findObjectForJournal` returns the location of the last version of the object in the range, and
none if there is no such version. -/
def JournalCorrect (D : Directory) (ops : List Op) (oid generation : ℕ) : Prop :=
  findObjectForJournal D oid generation =
    .ok (((ofObject (history ops oid)).find? fun v => InRange D generation v.generation).map
      fun v => v.od.logLoc)

/-- The last version is not in the range, and the last one of the object in the range, if any, is the
one recorded before it and is kept as the previous location. -/
def JournalOk (D : Directory) (ops : List Op) (oid generation : ℕ) : Prop :=
  match history ops oid with
  | [] => True
  | v :: older =>
      ¬InRange D generation v.generation ∧
        ∀ w, (older.filter fun w => v.Same w).find? (fun w => InRange D generation w.generation) =
            some w →
          older.head? = some w ∧ D.ppGenerationDelta (entryNode D oid) ≠ 0

/-- The location of the last version has been recorded only once, and no node held it at startup. -/
def NewLocation (D : Directory) (ops : List Op) (oid : ℕ) : Prop :=
  ∀ v ∈ (history ops oid).head?,
    (ops.flatMap Op.locations).count v.od.logLoc ≤ 1 ∧ ∀ n, D.ppLogLoc n ≠ v.od.logLoc

/-- What the entry of a node says about the versions of its object. -/
def EntryOf (D : Directory) (n : ℕ) (versions : List Version) : Prop :=
  ∃ older, versions = ⟨D.od n, D.generation n⟩ :: older ∧
    (D.ppGenerationDelta n ≠ 0 → ∃ w, older.head? = some w ∧ Version.Same ⟨D.od n, D.generation n⟩ w ∧
      w.od.logLoc = D.ppLogLoc n ∧ w.generation = D.generation n - D.ppGenerationDelta n)

/-- The previous location of a node comes from startup, or it was recorded before the location. -/
def LocatedBefore (D₀ D : Directory) (locs : List ℕ) (n : ℕ) : Prop :=
  (∃ m, D.ppLogLoc n = D₀.ppLogLoc m) ∨ [(D.od n).logLoc, D.ppLogLoc n].Sublist locs

/-- The entries are those of the objects that have versions. -/
structure HistoryOf (D₀ D : Directory) (V : View) (ops : List Op) : Prop where
  fresh : ∀ oid, Fresh D V oid → history ops oid = []
  entry : ∀ n ∈ V.tree.addrs, EntryOf D n (history ops (D.od n).oid)
  before : ∀ n, LocatedBefore D₀ D (ops.flatMap Op.locations) n

variable {D₀ D D' : Directory} {V V' : View} {ops : List Op} {op : Op} {od : ObjectDescriptor}
  {g x n oid : ℕ}

/-! ## The previous location -/

/-- A new entry in node `x` leaves the previous locations in the other nodes, and keeps the location
it replaces only if that is of the same object in an earlier generation. -/
structure PreviousKept (D : Directory) (x : ℕ) (od : ObjectDescriptor) (g : ℕ) (D' : Directory) :
    Prop where
  others : ∀ n ≠ x, D'.ppGenerationDelta n = D.ppGenerationDelta n ∧ D'.ppLogLoc n = D.ppLogLoc n
  kept : D'.ppGenerationDelta x ≠ 0 →
    D.generation x < g ∧ Version.Same ⟨od, g⟩ ⟨D.od x, D.generation x⟩ ∧
      D'.ppGenerationDelta x = g - D.generation x ∧ D'.ppLogLoc x = (D.od x).logLoc
  left : D'.ppGenerationDelta x = 0 → D'.ppLogLoc x = D.ppLogLoc x

theorem bind_ok {α β : Type} {m : Except Failure α} {f : α → Except Failure β} {b : β}
    (h : m >>= f = .ok b) : ∃ a, m = .ok a ∧ f a = .ok b := by
  cases m with
  | error e =>
    cases h
  | ok a => exact ⟨a, rfl, by rwa [ok_bind] at h⟩

theorem chainNode_previous (h : chainNode D n = .ok D') :
    D'.ppGenerationDelta = D.ppGenerationDelta ∧ D'.ppLogLoc = D.ppLogLoc := by
  obtain ⟨gti, -, h⟩ := bind_ok h
  unfold chainAt at h
  dsimp only at h
  split_ifs at h
  · cases h
    exact ⟨rfl, rfl⟩
  · obtain ⟨-, -, h⟩ := bind_ok h
    cases h
    exact ⟨rfl, rfl⟩

theorem unchainNode_frame (h : unchainNode D n = .ok D') :
    D'.ppGenerationDelta = D.ppGenerationDelta ∧ D'.ppLogLoc = D.ppLogLoc ∧
      D'.generation = D.generation ∧ D'.od = D.od := by
  obtain ⟨gti, -, h⟩ := bind_ok h
  obtain ⟨-, -, h⟩ := bind_ok h
  obtain ⟨-, -, h⟩ := bind_ok h
  cases h
  exact ⟨rfl, rfl, rfl, rfl⟩

theorem setPrevious_kept (h : setPrevious D x od g = .ok D') : PreviousKept D x od g D' := by
  unfold setPrevious at h
  split_ifs at h with hk
  · obtain ⟨-, -, h⟩ := bind_ok h
    cases h
    obtain ⟨hlt, -, halloc, hcall, htype⟩ := hk
    refine ⟨fun n hn => by simp [hn], fun _ => ⟨hlt, ⟨halloc.symm, hcall.symm, htype.symm⟩, by simp,
      by simp⟩, fun h0 => ?_⟩
    simp only [update_self] at h0
    omega
  · cases h
    exact ⟨fun n hn => by simp [hn], fun hne => absurd (by simp) hne, fun _ => rfl⟩

theorem updateNode_previous (h : updateNode D x od g = .ok D') : PreviousKept D x od g D' := by
  obtain ⟨D₁, hun, h⟩ := bind_ok h
  obtain ⟨D₂, hset, h⟩ := bind_ok h
  obtain ⟨hdelta, hloc, hgen, hod⟩ := unchainNode_frame hun
  obtain ⟨hdelta', hloc'⟩ := chainNode_previous h
  have hk := setPrevious_kept hset
  constructor
  · intro n hn
    rw [hdelta', hloc', ← hdelta, ← hloc]
    exact hk.others n hn
  · intro hne
    rw [hdelta'] at hne
    rw [hdelta', hloc', ← hgen, ← hod]
    exact hk.kept hne
  · intro h0
    rw [hdelta'] at h0
    rw [hloc', ← hloc]
    exact hk.left h0

theorem insertNode_previous {y tn : ℕ} (h : insertNode D y od g = .ok (tn, D')) :
    PreviousKept D tn od g D' ∧ D'.ppGenerationDelta tn = 0 := by
  obtain ⟨⟨tn', D₁⟩, halloc, h⟩ := bind_ok h
  obtain ⟨D₂, hch, h⟩ := bind_ok h
  obtain ⟨-, -, h⟩ := bind_ok h
  obtain ⟨-, -, h⟩ := bind_ok h
  cases h
  obtain ⟨-, -, halloc⟩ := bind_ok halloc
  cases halloc
  obtain ⟨hdelta, hloc⟩ := chainNode_previous hch
  simp only [setEntry] at hdelta hloc
  have hzero : D₂.ppGenerationDelta D.freeList = 0 := by simp [hdelta]
  exact ⟨⟨fun n hn => by simp [hdelta, hloc, hn], fun hne => absurd hzero hne,
    fun _ => by rw [hloc]⟩, hzero⟩

theorem insertNode_index {y tn : ℕ} (h : insertNode D y od g = .ok (tn, D')) :
    tn = D.freeList ∧ D.freeList ≠ 0 ∧
      ∃ j < ldMaxGenerations, g + j = D.highestGeneration := by
  obtain ⟨⟨tn', D₁⟩, halloc, h⟩ := bind_ok h
  obtain ⟨D₂, hch, h⟩ := bind_ok h
  obtain ⟨-, -, h⟩ := bind_ok h
  obtain ⟨-, -, h⟩ := bind_ok h
  cases h
  obtain ⟨⟨⟩, hfree, halloc⟩ := bind_ok halloc
  cases halloc
  obtain ⟨gti, hidx, -⟩ := bind_ok hch
  obtain ⟨hgti, hg⟩ := getGenerationIndex_ok hidx
  refine ⟨rfl, ?_, gti, hgti, ?_⟩
  · intro h0
    rw [ensure_neg (not_not.2 h0)] at hfree
    cases hfree
  · simpa [setEntry] using hg

/-! ## Calls and histories -/

theorem mem_locations {H : History} {v : Version} (hv : v ∈ op.history H oid) :
    v.od.logLoc ∈ op.locations ∨ ∃ oid', v ∈ H oid' := by
  cases op with
  | record od g =>
    rw [Op.history, update_apply] at hv
    split_ifs at hv
    · rw [List.mem_cons] at hv
      rcases hv with rfl | hv
      · exact .inl (by simp [Op.locations])
      · exact .inr ⟨_, hv⟩
    · exact .inr ⟨_, hv⟩
  | remove oid' =>
    rw [Op.history, update_apply] at hv
    split_ifs at hv
    · cases hv
    · exact .inr ⟨_, hv⟩
  | clear g =>
    dsimp only [Op.history] at hv
    split_ifs at hv
    · cases hv
    · exact .inr ⟨_, hv⟩
  | resetScan g => exact .inr ⟨_, hv⟩
  | findNext g => exact .inr ⟨_, hv⟩
  | retired g => exact .inr ⟨_, hv⟩

theorem logLoc_mem_locations {v : Version} (hv : v ∈ history ops oid) :
    v.od.logLoc ∈ ops.flatMap Op.locations := by
  induction ops generalizing oid with
  | nil => cases hv
  | cons op ops ih =>
    rw [List.flatMap_cons, List.mem_append]
    exact (mem_locations hv).imp id fun ⟨_, hv⟩ => ih hv

theorem LocatedBefore.append {locs : List ℕ} (h : LocatedBefore D₀ D locs n) (new : List ℕ)
    (hod : D'.od n = D.od n) (hloc : D'.ppLogLoc n = D.ppLogLoc n) :
    LocatedBefore D₀ D' (new ++ locs) n := by
  unfold LocatedBefore
  rw [hod, hloc]
  exact h.imp_right fun h => h.trans (List.sublist_append_right _ _)

theorem HistoryOf.congr (h : HistoryOf D₀ D V ops) (htree : V'.tree.addrs = V.tree.addrs)
    (hod : D'.od = D.od) (hgen : D'.generation = D.generation)
    (hdelta : D'.ppGenerationDelta = D.ppGenerationDelta) (hloc : D'.ppLogLoc = D.ppLogLoc) :
    HistoryOf D₀ D' V' ops := by
  constructor
  · intro oid hf
    refine h.fresh oid fun n hn => ?_
    rw [← hod]
    exact hf n (htree ▸ hn)
  · intro n hn
    rw [htree] at hn
    unfold EntryOf
    rw [hod, hgen, hdelta, hloc]
    exact h.entry n hn
  · exact fun n => (h.before n).append [] (by rw [hod]) (by rw [hloc])

theorem HistoryOf.skip (h : HistoryOf D₀ D V ops) (hop : op.history (history ops) = history ops) :
    HistoryOf D₀ D V (op :: ops) := by
  constructor
  · intro oid hf
    rw [history, hop]
    exact h.fresh oid hf
  · intro n hn
    rw [history, hop]
    exact h.entry n hn
  · exact fun n => (h.before n).append op.locations rfl rfl

/-- The object gets one more version. The nodes other than `x` are those of the other objects. -/
theorem HistoryOf.record (h : HistoryOf D₀ D V ops) (hx : x ∈ V'.tree.addrs)
    (hothers : ∀ n, n ∈ V'.tree.addrs ∧ n ≠ x ↔ n ∈ V.tree.addrs ∧ (D.od n).oid ≠ od.oid)
    (hnode : x ∈ V.tree.addrs ∧ (D.od x).oid = od.oid ∨ D'.ppGenerationDelta x = 0)
    (hod : D'.od = update D.od x od)
    (hgen : D'.generation = update D.generation x g) (hp : PreviousKept D x od g D') :
    HistoryOf D₀ D' V' (.record od g :: ops) := by
  have hodx : D'.od x = od := by rw [hod, update_self]
  have hgenx : D'.generation x = g := by rw [hgen, update_self]
  -- a location that is kept is that of the last version so far
  have hlast : D'.ppGenerationDelta x ≠ 0 →
      ∃ older, history ops od.oid = ⟨D.od x, D.generation x⟩ :: older := by
    intro hne
    obtain ⟨hmem, hoid⟩ := hnode.resolve_right hne
    obtain ⟨older, hH, -⟩ := h.entry x hmem
    exact ⟨older, hoid ▸ hH⟩
  constructor
  · intro oid hf
    have hne : oid ≠ od.oid := by
      rintro rfl
      exact hf x hx (by rw [hodx])
    rw [history, Op.history, update_of_ne hne]
    refine h.fresh oid fun n hn hoid => ?_
    obtain ⟨hn', hnx⟩ := (hothers n).2 ⟨hn, by rwa [hoid]⟩
    exact hf n hn' (by rw [hod, update_of_ne hnx, hoid])
  · intro n hn
    rw [history, Op.history]
    by_cases hnx : n = x
    · subst hnx
      rw [hodx, update_self]
      refine ⟨history ops od.oid, by rw [hodx, hgenx], fun hne => ?_⟩
      obtain ⟨hlt, hsame, hdelta, hloc⟩ := hp.kept hne
      obtain ⟨older, hH⟩ := hlast hne
      refine ⟨_, by rw [hH]; rfl, by rw [hodx, hgenx]; exact hsame, hloc.symm, ?_⟩
      rw [hgenx, hdelta, Nat.sub_sub_self hlt.le]
    · obtain ⟨hn', hne⟩ := (hothers n).1 ⟨hn, hnx⟩
      have hodn : D'.od n = D.od n := by rw [hod, update_of_ne hnx]
      have hgenn : D'.generation n = D.generation n := by rw [hgen, update_of_ne hnx]
      rw [hodn, update_of_ne hne]
      unfold EntryOf
      rw [hodn, hgenn, (hp.others n hnx).1, (hp.others n hnx).2]
      exact h.entry n hn'
  · intro n
    rw [List.flatMap_cons]
    by_cases hnx : n = x
    · subst hnx
      unfold LocatedBefore
      rw [hodx]
      by_cases hne : D'.ppGenerationDelta n = 0
      · rw [hp.left hne]
        refine (h.before n).imp_right fun hs => ?_
        exact (List.singleton_sublist.2 (hs.subset (by simp))).cons_cons _
      · obtain ⟨-, -, -, hloc⟩ := hp.kept hne
        obtain ⟨older, hH⟩ := hlast hne
        rw [hloc]
        refine .inr ((List.singleton_sublist.2 ?_).cons_cons _)
        exact logLoc_mem_locations (v := ⟨D.od n, D.generation n⟩) (hH ▸ List.mem_cons_self)
    · exact (h.before n).append _ (by rw [hod, update_of_ne hnx]) (hp.others n hnx).2

theorem HistoryOf.recordLocation (hV : Holds D V) (h : HistoryOf D₀ D V ops)
    (hrun : recordLocation D od g = .ok D') :
    ∃ V', Holds D' V' ∧ HistoryOf D₀ D' V' (.record od g :: ops) := by
  obtain ⟨-, -, hrun⟩ := bind_ok hrun
  obtain ⟨D₁, hopen, hrun⟩ := bind_ok hrun
  have hroom : Roomy D V g := by
    by_contra hno
    rw [openGeneration_full hV hno] at hopen
    cases hopen
  obtain ⟨D₂, V₁, hopen', hV₁, ho⟩ := openGeneration_spec hV hroom
  obtain rfl : D₂ = D₁ := by simpa [hopen'] using hopen
  have h₁ : HistoryOf D₀ D₂ V₁ ops :=
    h.congr (by rw [ho.tree]) (by rw [ho.rest]) (by rw [ho.rest]) (by rw [ho.rest]) (by rw [ho.rest])
  have hhigh := ho.highest
  have hroot : D₂.tree.root = V₁.tree.addr := hV₁.tree.context
  obtain ⟨at', hsearch, hrun⟩ := bind_ok hrun
  rw [hroot] at hsearch
  rcases insertSearch_spec (D := D₂) od.oid D₂.fuel hV₁.tree hV₁.sorted (Fits.nil _ _)
    (by have := hV₁.fuel; omega) with ⟨x, hx, hox, hfound⟩ | ⟨ctx, hunder, hplug, hfit⟩
  · -- the object has a node
    obtain rfl : InsertAt.found x = at' := Except.ok.inj (hfound.symm.trans hsearch)
    obtain ⟨i, hi, hxi⟩ := hV₁.exists_index hx
    have hin : D₂.highestGeneration < g + ldMaxGenerations := by
      by_contra hold
      have hrun : updateNode D₂ x od g = .ok D' := hrun
      rw [updateNode_old hV₁ hi hxi (by omega)] at hrun
      cases hrun
    have hgj : g + (D₂.highestGeneration - g) = D₂.highestGeneration := by omega
    obtain ⟨D₃, hupd, hV', heq⟩ := updateNode_spec hV₁ hi hxi hox (by omega) hgj
    obtain rfl : D₃ = D' := Except.ok.inj (hupd.symm.trans hrun)
    refine ⟨_, hV', h₁.record hx (fun n => ?_) (.inl ⟨hx, hox⟩) (by rw [heq]) (by rw [heq])
      (updateNode_previous hrun)⟩
    refine and_congr_right fun hn => not_congr ⟨?_, fun he => hV₁.oid_inj hn hx (he.trans hox.symm)⟩
    rintro rfl
    exact hox
  · -- the object has none
    obtain rfl : InsertAt.under (Context.top ctx) = at' := Except.ok.inj (hunder.symm.trans hsearch)
    obtain ⟨⟨tn, D₃⟩, hins, hrun⟩ := bind_ok hrun
    obtain ⟨L, hcolor, hrun⟩ := bind_ok hrun
    cases hrun
    have hfresh : Fresh D₂ V₁ od.oid := fresh_of_fits hplug hfit
    obtain ⟨rfl, hfl, j, hj, hgj⟩ := insertNode_index hins
    obtain ⟨tn, rest, hfree⟩ : ∃ tn rest, V₁.free = tn :: rest := by
      refine List.exists_cons_of_ne_nil fun hnil => hfl ?_
      have hstack := hV₁.stack
      rw [hnil] at hstack
      exact hstack
    have hrb : RedBlack V₁.tree := by
      refine hV₁.fair.resolve_right ?_
      rintro ⟨p, hp⟩
      obtain ⟨D₄, hins', hcol⟩ := addNode_red hV₁ hplug hfit hfree hj hgj hp
      cases hins.symm.trans hins'
      rw [hcol] at hcolor
      cases hcolor
    obtain ⟨D₄, L', t', hins', hcol, -, hperm, hV', heq⟩ :=
      addNode_spec hV₁ hplug hfit hfree hj hgj hrb
    cases hins.symm.trans hins'
    obtain rfl : L' = L := Except.ok.inj (hcol.symm.trans hcolor)
    have htn : D₂.freeList ∉ V₁.tree.addrs := hV₁.not_mem_tree (by simp [hfree])
    obtain ⟨hp, hzero⟩ := insertNode_previous hins
    refine ⟨_, hV', h₁.record (hperm.mem_iff.2 (by simp)) (fun n => ?_) (.inr hzero)
      (by rw [heq]) (by rw [heq]) ⟨hp.others, hp.kept, hp.left⟩⟩
    · rw [hperm.mem_iff, List.mem_cons]
      constructor
      · rintro ⟨hn, hne⟩
        exact ⟨hn.resolve_left hne, hfresh n (hn.resolve_left hne)⟩
      · rintro ⟨hn, -⟩
        exact ⟨.inr hn, fun he => htn (he ▸ hn)⟩

theorem HistoryOf.remove {z : ℕ} (hV : Holds D V) (h : HistoryOf D₀ D V ops)
    (hz : z ∈ V.tree.addrs) (hrem : Removal D V z D' V') :
    HistoryOf D₀ D' V' (.remove (D.od z).oid :: ops) := by
  have hod : D'.od = D.od := by rw [hrem.rest]
  have hmem : ∀ n, n ∈ V'.tree.addrs ↔ n ≠ z ∧ n ∈ V.tree.addrs := by
    intro n
    rw [hrem.addrs, (List.nodup_append'.1 hV.nodup).1.mem_erase_iff]
  constructor
  · intro oid hf
    rw [history, Op.history]
    by_cases ho : oid = (D.od z).oid
    · rw [ho, update_self]
    · rw [update_of_ne ho]
      refine h.fresh oid fun n hn hoid => ?_
      refine hf n ((hmem n).2 ⟨?_, hn⟩) (by rw [hod, hoid])
      rintro rfl
      exact ho hoid.symm
  · intro n hn
    obtain ⟨hne, hn'⟩ := (hmem n).1 hn
    have ho : (D.od n).oid ≠ (D.od z).oid := fun he => hne (hV.oid_inj hn' hz he)
    rw [hod, history, Op.history, update_of_ne ho]
    rw [hrem.rest]
    exact h.entry n hn'
  · exact fun n => (h.before n).append [] (by rw [hod]) (by rw [hrem.rest])

theorem HistoryOf.clear (h : HistoryOf D₀ D V ops)
    (hmem : ∀ n, n ∈ V'.tree.addrs ↔ n ∈ V.tree.addrs ∧ g < D.generation n)
    (hrest : D' = { D with
      tree := D'.tree, table := D'.table, next := D'.next, prev := D'.prev,
      freeList := D'.freeList, logEntryCount := D'.logEntryCount }) :
    HistoryOf D₀ D' V' (.clear g :: ops) := by
  have hod : D'.od = D.od := by rw [hrest]
  constructor
  · intro oid hf
    rw [history, Op.history, ite_eq_left_iff]
    intro hnew
    -- an entry that is not removed is still there
    refine h.fresh oid fun n hn hoid => ?_
    obtain ⟨older, hH, -⟩ := h.entry n hn
    rw [hoid] at hH
    refine hf n ((hmem n).2 ⟨hn, ?_⟩) (by rw [hod, hoid])
    rw [hH] at hnew
    simpa using hnew
  · intro n hn
    obtain ⟨hn', hlt⟩ := (hmem n).1 hn
    have hent := h.entry n hn'
    obtain ⟨older, hH, -⟩ := id hent
    have hkeep : history (.clear g :: ops) (D.od n).oid = history ops (D.od n).oid := by
      rw [history, Op.history, ite_eq_right_iff, hH]
      intro hany
      simp only [List.head?_cons, Option.any_some, decide_eq_true_eq] at hany
      omega
    rw [hod, hkeep]
    rw [hrest]
    exact hent
  · exact fun n => (h.before n).append [] (by rw [hod]) (by rw [hrest])

theorem clearAll_mem (is : List ℕ) (his : ∀ i ∈ is, i < ldMaxGenerations) (h : Holds D V)
    (hrun : is.foldlM clearAt D = .ok D') :
    ∃ V', Holds D' V' ∧
      (∀ n, n ∈ V'.tree.addrs ↔ n ∈ V.tree.addrs ∧ ∀ i ∈ is, n ∉ (V.chain i).nodes) ∧
      D' = { D with
        tree := D'.tree, table := D'.table, next := D'.next, prev := D'.prev,
        freeList := D'.freeList, logEntryCount := D'.logEntryCount } := by
  induction is generalizing D V with
  | nil =>
    cases show Except.ok D = Except.ok D' from hrun
    exact ⟨V, h, by simp, rfl⟩
  | cons i is ih =>
    obtain ⟨D₁, hat, hrun⟩ := bind_ok hrun
    have hi := his i (by simp)
    have his' : ∀ k ∈ is, k < ldMaxGenerations := fun k hk => his k (by simp [hk])
    obtain ⟨D₂, V₁, h₁, -, hcl, hcase⟩ :=
      clearAt_spec (P := fun _ => True) h hi trivial fun _ _ _ _ _ => trivial
    obtain rfl : D₂ = D₁ := by
      rcases hcase with ⟨rfl, -, hok, -⟩ | ⟨hok, -⟩
      · exact Except.ok.inj (hok.symm.trans hat)
      · rw [hok] at hat
        split_ifs at hat
        exact Except.ok.inj hat
    obtain ⟨V', h', hmem, hrest⟩ := ih his' h₁ hrun
    exact ⟨V', h', hcl.mem_cons h h₁ his' hmem, by rw [hrest, hcl.rest]⟩

theorem HistoryOf.run (hV : Holds D V) (h : HistoryOf D₀ D V ops) {op : Op}
    (hrun : op.run D = .ok D') : ∃ V', Holds D' V' ∧ HistoryOf D₀ D' V' (op :: ops) := by
  cases op with
  | record od g => exact h.recordLocation hV hrun
  | remove oid =>
    obtain ⟨rfl, hfresh⟩ | ⟨z, V₁, hz, rfl, hV₁, hrem⟩ := removeObjectEntry_ok hV hrun
    · exact ⟨V, hV, h.skip (by rw [Op.history, ← h.fresh oid hfresh, update_eq_self])⟩
    · exact ⟨V₁, hV₁, h.remove hV hz hrem⟩
  | clear g =>
    obtain ⟨gti, hidx, hrun⟩ := bind_ok (show clearGeneration D g = .ok D' from hrun)
    obtain ⟨hgti, hg⟩ := getGenerationIndex_ok hidx
    obtain rfl : D.highestGeneration - g = gti := by omega
    obtain ⟨V', hV', hmem, hrest⟩ := clearAll_mem _
      (fun i hi => by rw [List.mem_range'_1] at hi; omega) hV hrun
    exact ⟨V', hV', h.clear (hV.mem_cleared (by omega) hmem) hrest⟩
  | resetScan g =>
    obtain ⟨i, -, -, hV', heq⟩ := resetScan_spec hV hrun
    refine ⟨_, hV', HistoryOf.skip (h.congr rfl ?_ ?_ ?_ ?_) rfl⟩ <;> rw [heq]
  | findNext g =>
    obtain ⟨r, hf, hr⟩ := bind_ok (show (findNextObject D g >>= fun r => .ok r.2) = .ok D' from hrun)
    cases hr
    obtain ⟨i, -, -, ⟨-, -, hD⟩ | ⟨-, -, hV', heq⟩⟩ :=
      findNextObject_spec hV (hf : _ = Except.ok (r.1, r.2))
    · exact ⟨V, hD ▸ hV, hD ▸ h.skip rfl⟩
    · refine ⟨_, hV', HistoryOf.skip (h.congr rfl ?_ ?_ ?_ ?_) rfl⟩ <;> rw [heq]
  | retired g =>
    obtain ⟨-, -, hrun⟩ := bind_ok (show generationRetired D g = .ok D' from hrun)
    cases hrun
    refine ⟨V, ⟨hV.tree, hV.fair, hV.sorted, ?_, hV.mem, hV.stack, hV.nodes, hV.count⟩,
      HistoryOf.skip (h.congr rfl rfl rfl rfl rfl) rfl⟩
    exact ⟨hV.chains.ring, hV.chains.entry, hV.chains.gen, hV.chains.ne_zero⟩

theorem JournalRun.historyOf (h0 : Initial D) (h : JournalRun D D' ops) :
    ∃ V, Holds D' V ∧ HistoryOf D D' V ops := by
  induction h with
  | init =>
    exact ⟨_, h0.holds, fun _ _ => rfl, by simp [View.empty, addrs], fun n => .inl ⟨n, rfl⟩⟩
  | step _ hrun ih =>
    obtain ⟨V, hV, hH⟩ := ih
    exact hH.run hV hrun

/-! ## The query -/

theorem findObjectForJournal_node (hn : findNode D oid = .ok n) (h0 : n ≠ 0) :
    findObjectForJournal D oid g = .ok (
      if InRange D g (D.generation n) then some (D.ppLogLoc n)
      else if D.ppGenerationDelta n ≠ 0 ∧
          InRange D g (D.generation n - D.ppGenerationDelta n) then
        some (D.ppLogLoc n)
      else none) := by
  rw [findObjectForJournal, hn, ok_bind, if_neg h0]
  change (if InRange D g (D.generation n) then _ else _) = _
  by_cases hin : InRange D g (D.generation n)
  · rw [if_pos hin, if_pos hin]
  · rw [if_neg hin, if_neg hin]
    by_cases hdelta : D.ppGenerationDelta n = 0
    · rw [if_pos hdelta, if_neg fun hc => hc.1 hdelta]
    · rw [if_neg hdelta]
      dsimp only
      split_ifs with hin' hc hc
      · rfl
      · exact absurd ⟨hdelta, hin'⟩ hc
      · exact absurd hc.2 hin'
      · rfl

/-- Without a last version in the range, the result is right exactly if the version before the last is
the one in question and kept, or no version is. -/
theorem journalCorrect_older (hV : Holds D' V) (hH : HistoryOf D D' V ops) (hmem : n ∈ V.tree.addrs)
    (hn : findNode D' (D'.od n).oid = .ok n) (hin : ¬InRange D' g (D'.generation n)) :
    JournalCorrect D' ops (D'.od n).oid g ↔ JournalOk D' ops (D'.od n).oid g := by
  obtain ⟨older, hver, hprev⟩ := hH.entry n hmem
  unfold JournalCorrect JournalOk
  rw [findObjectForJournal_node hn (hV.tree.ne_zero hmem), hver, hV.entryNode_eq hmem rfl]
  dsimp only [ofObject]
  rw [if_neg hin, List.find?_cons_of_neg (by simpa using hin)]
  by_cases hdelta : D'.ppGenerationDelta n = 0
  · -- no version before it is kept
    cases hf : (older.filter fun w => Version.Same ⟨D'.od n, D'.generation n⟩ w).find?
      fun w => InRange D' g w.generation <;> simp [hdelta, hin]
  · obtain ⟨w, hw, hsame, hloc, hgen⟩ := hprev hdelta
    obtain ⟨rest, rfl⟩ := List.head?_eq_some_iff.1 hw
    rw [List.filter_cons_of_pos (by simpa using hsame), ← hgen, ← hloc]
    by_cases hin' : InRange D' g w.generation
    · rw [List.find?_cons_of_pos (by simpa using hin')]
      simp [hdelta, hin', hin]
    · rw [List.find?_cons_of_neg (by simpa using hin')]
      simp only [hin', and_false, if_false]
      cases hf : (rest.filter fun v => Version.Same ⟨D'.od n, D'.generation n⟩ v).find?
        fun w => InRange D' g w.generation with
      | none => simp [hin]
      | some u =>
        -- an even older version is not the one before the last
        have hu : InRange D' g u.generation := by simpa using List.find?_some hf
        simp only [Option.map_some, Except.ok.injEq, reduceCtorEq, List.head?_cons,
          Option.some.injEq, false_iff]
        rintro ⟨-, hall⟩
        rw [(hall u rfl).1] at hin'
        exact hin' hu

/-- A last version in the range is not found if its location is new. -/
theorem not_journalCorrect (hV : Holds D' V) (hH : HistoryOf D D' V ops) (hmem : n ∈ V.tree.addrs)
    (hn : findNode D' (D'.od n).oid = .ok n) (hin : InRange D' g (D'.generation n))
    (hnew : NewLocation D ops (D'.od n).oid) : ¬JournalCorrect D' ops (D'.od n).oid g := by
  obtain ⟨older, hver, -⟩ := hH.entry n hmem
  obtain ⟨honce, hstart⟩ := hnew ⟨D'.od n, D'.generation n⟩ (by rw [hver]; rfl)
  unfold JournalCorrect
  rw [findObjectForJournal_node hn (hV.tree.ne_zero hmem), hver, if_pos hin, ofObject,
    List.find?_cons_of_pos (by simpa using hin), Option.map_some, Except.ok.injEq, Option.some.injEq]
  intro hc
  obtain ⟨m, hm⟩ | hsub := hH.before n
  · exact hstart m (hm.symm.trans hc)
  · rw [hc] at hsub
    have hle := hsub.count_le (D'.od n).logLoc
    simp only [List.count_cons_self, List.count_nil] at hle honce
    omega

/-- In every state that is reached, `ld_findObjectForJournal` returns the right location if the last
version is not in the range and the one before it, should it be needed, is kept. Otherwise its answer
is wrong, except by chance: if the location of a last version in the range is not new, the node may
hold it from an earlier use. -/
theorem journal_iff (h0 : Initial D) (h : JournalRun D D' ops) (oid g : ℕ) :
    (JournalOk D' ops oid g → JournalCorrect D' ops oid g) ∧
      (NewLocation D ops oid → (JournalCorrect D' ops oid g ↔ JournalOk D' ops oid g)) := by
  obtain ⟨V, hV, hH⟩ := h.historyOf h0
  obtain ⟨n, hn, ⟨hmem, rfl⟩ | ⟨rfl, hfresh⟩⟩ := hV.find oid
  · by_cases hin : InRange D' g (D'.generation n)
    · -- the last version is in the range
      have hno : ¬JournalOk D' ops (D'.od n).oid g := by
        obtain ⟨older, hver, -⟩ := hH.entry n hmem
        rw [JournalOk, hver]
        exact fun hok => hok.1 hin
      exact ⟨fun hok => absurd hok hno,
        fun hnew => iff_of_false (not_journalCorrect hV hH hmem hn hin hnew) hno⟩
    · have hiff := journalCorrect_older hV hH hmem hn hin
      exact ⟨hiff.2, fun _ => hiff⟩
  · have hcorrect : JournalCorrect D' ops oid g := by
      rw [JournalCorrect, findObjectForJournal, hn, ok_bind, hH.fresh oid hfresh]
      simp [ofObject]
    have hok : JournalOk D' ops oid g := by
      rw [JournalOk, hH.fresh oid hfresh]
      trivial
    exact ⟨fun _ => hcorrect, fun _ => iff_of_true hcorrect hok⟩

theorem JournalRun.calls (new : List Op) {D₁ : Directory} (h : JournalRun D D₁ ops)
    (hrun : new.foldlM Op.run D₁ = .ok D') : JournalRun D D' (new.reverse ++ ops) := by
  induction new generalizing D₁ ops with
  | nil =>
    cases show Except.ok D₁ = Except.ok D' from hrun
    exact h
  | cons op new ih =>
    obtain ⟨D₂, hop, hrun⟩ := bind_ok hrun
    rw [List.reverse_cons, List.append_assoc]
    exact ih (h.step hop) hrun

/-- An object is recorded in two generations, between two others. The location in the first one is
found, because the last version is not older than the second one. -/
theorem journal_iff_previous :
    ∃ D', [.record ⟨7, 0, 0, 40, 0⟩ 1, .record ⟨9, 0, 0, 41, 0⟩ 1, .record ⟨7, 0, 0, 42, 0⟩ 2,
        .record ⟨3, 0, 0, 43, 0⟩ 2].foldlM Op.run (startup 5) = .ok D' ∧
      findObjectForJournal D' 7 2 = .ok (some 40) := by
  obtain ⟨D', hrun, hret, hdelta⟩ : ∃ D',
      [.record ⟨7, 0, 0, 40, 0⟩ 1, .record ⟨9, 0, 0, 41, 0⟩ 1, .record ⟨7, 0, 0, 42, 0⟩ 2,
          .record ⟨3, 0, 0, 43, 0⟩ 2].foldlM Op.run (startup 5) = .ok D' ∧
        D'.lastRetiredGeneration = 0 ∧ D'.ppGenerationDelta (entryNode D' 7) ≠ 0 :=
    ⟨_, rfl, rfl, by decide⟩
  have hok := (journal_iff (initial_startup 5) (JournalRun.init.calls _ hrun) 7 2).1 (by
    simp only [JournalOk, List.reverse_cons, List.reverse_nil, List.nil_append, List.cons_append,
      List.append_nil, history, Op.history, update_self, update_apply, InRange, hret]
    simp [Version.Same, hdelta])
  refine ⟨D', hrun, hok.trans ?_⟩
  simp [history, Op.history, ofObject, InRange, hret, Version.Same]

/-- An object that has been recorded once is reported at a location that has never been its own. -/
theorem journal_stale :
    ¬∀ D, Initial D → ∀ D' ops, JournalRun D D' ops → ∀ oid g, JournalCorrect D' ops oid g := by
  intro hall
  obtain ⟨D', hrun, hret, hfind⟩ : ∃ D',
      [.record ⟨7, 0, 0, 40, 0⟩ 1].foldlM Op.run (startup 3) = .ok D' ∧
        D'.lastRetiredGeneration = 0 ∧ findObjectForJournal D' 7 2 = .ok (some 0) :=
    ⟨_, rfl, rfl, rfl⟩
  have hc := hall _ (initial_startup 3) _ _ (JournalRun.init.calls _ hrun) 7 2
  rw [JournalCorrect, hfind] at hc
  simp [history, Op.history, ofObject, InRange, hret] at hc

end CapROS.LogDirectory
