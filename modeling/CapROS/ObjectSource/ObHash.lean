import CapROS.Kernel.Types
import CapROS.Theory.LinkedRing

/-!
# The object hash

Nodes, pages and pots that are in memory are found by their OIDs (`kern_CoreObHash.c`). The headers are in chains, one
for each bucket of the table, linked by `hashChainNext`. Objects and the pots of each type are looked up apart. A
header must not be interned again while it is in the table: `objH_Intern` asserts no more than that it is not the first
one of its chain.

Headers are numbers, and 0 is the null pointer.

* `objHIntern`, `objHUnintern`, `objHLookup`: the code. `Run`: the runs, with the headers that are interned.
* `lookup_latest`: the table is correct as long as no header is interned twice.
-/

namespace CapROS.ObHash

open LinkedRing
open Function (update update_self update_of_ne)

/-- `ObType`, for the ARM. -/
inductive ObType where
  | ntUnprepared | ntSegment | ntProcessRoot | ntKeyRegs | ntRegAnnex | ntFreeFrame
  | ptDataPage | ptDevBlock | ptDMABlock | ptSecondary
  | ptTagPot | ptHomePot | ptLogPot | ptWorkingCopy | ptNewAlloc | ptKernelUse | ptFreeFrame | ptFreeSecondary
  | ptMappingPage1 | ptMappingPage2
  deriving DecidableEq, Repr

/-- `ot_PtLAST_OBJECT_TYPE`. -/
def ptLastObjectType : ObType := .ptSecondary

def ktuneNobbuckets : ℕ := 1024

def bucketNdx (oid : ℕ) : ℕ :=
  let oid32 := oid % 4294967296
  ((oid32 >>> 8) ^^^ ((oid32 &&& 0xff) <<< 9)) % ktuneNobbuckets

/-- The table, and the fields of the headers. -/
structure Table where
  obBucket : ℕ → ℕ
  hashChainNext : ℕ → ℕ
  oid : ℕ → ℕ
  obType : ℕ → ObType

/-- The type under which `objH_Lookup` finds a header. -/
def Table.kind (T : Table) (ob : ℕ) : ℕ :=
  if (T.obType ob).ctorIdx ≤ ptLastObjectType.ctorIdx then 0 else (T.obType ob).ctorIdx

def objHIntern (T : Table) (thisPtr : ℕ) : Except Halt Table := do
  let ndx := bucketNdx (T.oid thisPtr)
  kassert (T.obBucket ndx ≠ thisPtr)
  .ok { T with
    hashChainNext := update T.hashChainNext thisPtr (T.obBucket ndx)
    obBucket := update T.obBucket ndx thisPtr }

/-- The loop of `objH_Unintern`. -/
def uninternLoop (T : Table) (thisPtr : ℕ) : ℕ → ℕ → Except Halt Table
  | 0, _ => .error .diverged
  | fuel + 1, ob =>
      if T.hashChainNext ob = 0 then .ok T
      else if T.hashChainNext ob = thisPtr then
        .ok { T with
          hashChainNext := update T.hashChainNext ob (T.hashChainNext (T.hashChainNext ob)) }
      else uninternLoop T thisPtr fuel (T.hashChainNext ob)

def objHUnintern (fuel : ℕ) (T : Table) (thisPtr : ℕ) : Except Halt Table :=
  let ndx := bucketNdx (T.oid thisPtr)
  if T.obBucket ndx = 0 then .ok T
  else if T.obBucket ndx = thisPtr then
    .ok { T with obBucket := update T.obBucket ndx (T.hashChainNext (T.obBucket ndx)) }
  else uninternLoop T thisPtr fuel (T.obBucket ndx)

/-- The loop of `objH_Lookup`. -/
def lookupLoop (T : Table) (oid type : ℕ) : ℕ → ℕ → Except Halt ℕ
  | 0, _ => .error .diverged
  | fuel + 1, pOb =>
      if pOb = 0 then .ok 0
      else if T.oid pOb = oid ∧ T.kind pOb = type then .ok pOb
      else lookupLoop T oid type fuel (T.hashChainNext pOb)

def objHLookup (fuel : ℕ) (T : Table) (oid type : ℕ) : Except Halt ℕ :=
  lookupLoop T oid type fuel (T.obBucket (bucketNdx oid))

/-! ## Runs -/

/-- What is done with the header `ob`. -/
inductive Op where
  /-- It gets its type and its OID, and is interned (`objH_InitObj`). -/
  | intern (ob oid : ℕ) (obType : ObType)
  | unintern (ob : ℕ)
  /-- The way in which the object is interpreted changes. -/
  | setType (ob : ℕ) (obType : ObType)

def Op.run (fuel : ℕ) (T : Table) : Op → Except Halt Table
  | .intern ob oid obType =>
      objHIntern
        { T with oid := update T.oid ob oid, obType := update T.obType ob obType } ob
  | .unintern ob => objHUnintern fuel T ob
  | .setType ob obType => .ok { T with obType := update T.obType ob obType }

/-- The headers that have been interned and not uninterned since, the last one first. -/
def Op.log (log : List ℕ) : Op → List ℕ
  | .intern ob _ _ => ob :: log.erase ob
  | .unintern ob => log.erase ob
  | .setType _ _ => log

/-- The table and the headers that are interned, after operations that meet a condition. -/
inductive Run (P : List ℕ → Op → Prop) : Table → List ℕ → Prop
  | init {T : Table} (h : ∀ i, T.obBucket i = 0) : Run P T []
  | step {T T' : Table} {log : List ℕ} {op : Op} {fuel : ℕ} (h : Run P T log) (hop : P log op)
      (hf : log.length < fuel) (hrun : op.run fuel T = .ok T') : Run P T' (op.log log)

/-- The header is not null. -/
def Op.Valid (_ : List ℕ) : Op → Prop
  | .intern ob _ _ => ob ≠ 0
  | _ => True

/-- No header that is interned is interned again. -/
def Op.Proper (log : List ℕ) : Op → Prop
  | .intern ob _ _ => ob ≠ 0 ∧ ob ∉ log
  | _ => True

/-- The last one of the headers with this identity that was interned, 0 if there is none. -/
def latest (T : Table) (log : List ℕ) (oid type : ℕ) : ℕ :=
  (log.find? fun ob => T.oid ob = oid ∧ T.kind ob = type).getD 0

/-- What the table is for. -/
structure Correct (T : Table) (log : List ℕ) : Prop where
  /-- `objH_Lookup` finds the last header that was interned. -/
  lookup : ∀ oid type fuel, log.length < fuel → objHLookup fuel T oid type = .ok (latest T log oid type)
  /-- Objects and pots with one OID do not hide each other. -/
  found : ∀ ob ∈ log, latest T log (T.oid ob) (T.kind ob) ≠ 0 ∧
    latest T log (T.oid ob) (T.kind ob) ∈ log ∧
    T.oid (latest T log (T.oid ob) (T.kind ob)) = T.oid ob ∧
    T.kind (latest T log (T.oid ob) (T.kind ob)) = T.kind ob
  /-- The proper operations return. -/
  returns : ∀ (op : Op) fuel, op.Proper log → log.length < fuel → ∃ T', op.run fuel T = .ok T'

variable {T T' : Table} {log xs : List ℕ} {op : Op} {a ob fuel oid type : ℕ} {P : List ℕ → Op → Prop}

/-! ## Chains -/

theorem lookupLoop_eq (hs : Stack T.hashChainNext 0 a xs) (hf : xs.length < fuel) :
    lookupLoop T oid type fuel a = .ok (latest T xs oid type) := by
  induction xs generalizing a fuel with
  | nil =>
    obtain ⟨fuel, rfl⟩ := Nat.exists_eq_add_of_lt hf
    rw [lookupLoop, if_pos (show a = 0 from hs)]
    rfl
  | cons x xs ih =>
    obtain ⟨rfl, hx, hrest⟩ := hs
    obtain ⟨fuel, rfl⟩ : ∃ n, fuel = n + 1 := ⟨fuel - 1, by omega⟩
    rw [lookupLoop, if_neg hx, latest, List.find?_cons]
    split_ifs with hid
    · simp [hid]
    · simpa [hid, latest] using ih hrest (Nat.lt_of_succ_lt_succ hf)

theorem uninternLoop_spec (hs : Stack T.hashChainNext 0 a (a :: xs)) (hn : (a :: xs).Nodup) (ha : a ≠ ob)
    (hf : xs.length < fuel) : ∃ next, uninternLoop T ob fuel a = .ok { T with hashChainNext := next } ∧
      Stack next 0 a (a :: xs.erase ob) ∧ ∀ x ∉ a :: xs, next x = T.hashChainNext x := by
  induction xs generalizing a fuel with
  | nil =>
    obtain ⟨fuel, rfl⟩ : ∃ n, fuel = n + 1 := ⟨fuel - 1, by simp at hf; omega⟩
    rw [uninternLoop, if_pos (show T.hashChainNext a = 0 from hs.2.2)]
    exact ⟨_, rfl, hs, fun _ _ => rfl⟩
  | cons x xs ih =>
    obtain ⟨-, ha0, hx, hx0, hrest⟩ := hs
    obtain ⟨hax, hn⟩ := List.nodup_cons.1 hn
    obtain ⟨fuel, rfl⟩ : ∃ n, fuel = n + 1 := ⟨fuel - 1, by omega⟩
    rw [uninternLoop, hx, if_neg hx0]
    by_cases hxo : x = ob
    · -- the pointer is at the header before it
      subst hxo
      rw [if_pos rfl, List.erase_cons_head]
      refine ⟨_, rfl, ⟨rfl, ha0, ?_⟩, fun y hy => ?_⟩
      · rw [update_self]
        refine hrest.congr fun y hy => update_of_ne ?_ _ _
        rintro rfl
        exact hax (List.mem_cons_of_mem _ hy)
      · exact update_of_ne (List.ne_of_not_mem_cons hy) _ _
    · obtain ⟨next, hrun, hs', hother⟩ := ih ⟨rfl, hx0, hrest⟩ hn hxo (Nat.lt_of_succ_lt_succ hf)
      rw [if_neg hxo, List.erase_cons_tail (by simpa using hxo)]
      refine ⟨next, hrun, ⟨rfl, ha0, ?_⟩, fun y hy => hother y fun hm => hy (List.mem_cons_of_mem _ hm)⟩
      rwa [hother a hax, hx]

/-! ## The invariant -/

/-- The headers of a bucket. -/
def chain (T : Table) (log : List ℕ) (ndx : ℕ) : List ℕ := log.filter fun ob => bucketNdx (T.oid ob) = ndx

/-- Each chain has the headers of its bucket. -/
structure Inv (T : Table) (log : List ℕ) : Prop where
  nodup : log.Nodup
  ne_zero : 0 ∉ log
  stack : ∀ ndx, Stack T.hashChainNext 0 (T.obBucket ndx) (chain T log ndx)

theorem Inv.lookup (h : Inv T log) (hf : log.length < fuel) :
    objHLookup fuel T oid type = .ok (latest T log oid type) := by
  rw [objHLookup, lookupLoop_eq (h.stack _) ((List.length_filter_le _ _).trans_lt hf), latest, latest, chain,
    List.find?_filter]
  congr 3
  ext ob
  by_cases hoid : T.oid ob = oid
  · simp [hoid]
  · simp [hoid]

theorem Inv.intern (h : Inv T log) (h0 : ob ≠ 0) (hob : ob ∉ log) (obType : ObType) :
    ∃ T', (Op.intern ob oid obType).run fuel T = .ok T' ∧ Inv T' (ob :: log) := by
  have hchain : ∀ ndx, log.filter (fun x => bucketNdx (update T.oid ob oid x) = ndx) = chain T log ndx := by
    intro ndx
    refine List.filter_congr fun x hx => ?_
    rw [update_of_ne (ne_of_mem_of_not_mem hx hob)]
  have hnot : ∀ ndx, ob ∉ chain T log ndx := fun ndx hm => hob (List.mem_of_mem_filter hm)
  -- what the source asserts
  have hassert : T.obBucket (bucketNdx oid) ≠ ob := fun he => hnot _ (he ▸ (h.stack _).mem (he ▸ h0))
  refine ⟨{ T with
      hashChainNext := update T.hashChainNext ob (T.obBucket (bucketNdx oid))
      obBucket := update T.obBucket (bucketNdx oid) ob
      oid := update T.oid ob oid
      obType := update T.obType ob obType }, ?_, List.nodup_cons.2 ⟨hob, h.nodup⟩, ?_, fun ndx => ?_⟩
  · simp only [Op.run, objHIntern, update_self, kassert_pos hassert, ok_bind]
  · simpa [h0.symm] using h.ne_zero
  · simp only [chain, List.filter_cons, update_self, hchain]
    split_ifs with hndx
    · obtain rfl : bucketNdx oid = ndx := by simpa using hndx
      rw [update_self]
      exact (h.stack _).push (hnot _) h0
    · rw [update_of_ne (by simpa [eq_comm] using hndx)]
      exact (h.stack ndx).congr fun x hx => update_of_ne (ne_of_mem_of_not_mem hx (hnot ndx)) _ _

theorem Inv.unlink {b : ℕ} (h : Inv T log) (T' : Table) (hb : bucketNdx (T.oid ob) = b) (hoid : T'.oid = T.oid)
    (hbucket : ∀ ndx ≠ b, T'.obBucket ndx = T.obBucket ndx)
    (hnext : ∀ x ∉ chain T log b, T'.hashChainNext x = T.hashChainNext x)
    (hs : Stack T'.hashChainNext 0 (T'.obBucket b) ((chain T log b).erase ob)) : Inv T' (log.erase ob) where
  nodup := h.nodup.erase ob
  ne_zero h0 := h.ne_zero (List.mem_of_mem_erase h0)
  stack ndx := by
    have hmem : ∀ {i x}, x ∈ chain T log i → bucketNdx (T.oid x) = i := fun hx => by
      simpa using List.of_mem_filter hx
    rw [chain, hoid, ← List.erase_filter]
    by_cases hndx : ndx = b
    · exact hndx ▸ hs
    · have hob : ob ∉ chain T log ndx := fun hm => hndx ((hmem hm).symm.trans hb)
      rw [hbucket ndx hndx]
      exact List.erase_of_not_mem hob ▸ (h.stack ndx).congr fun x hx =>
        hnext x fun hx' => hndx ((hmem hx).symm.trans (hmem hx'))

theorem Inv.unintern (h : Inv T log) (hf : log.length < fuel) :
    ∃ T', (Op.unintern ob).run fuel T = .ok T' ∧ Inv T' (log.erase ob) := by
  obtain ⟨b, hb⟩ : ∃ b, bucketNdx (T.oid ob) = b := ⟨_, rfl⟩
  have hs := h.stack b
  have hnodup : (chain T log b).Nodup := h.nodup.filter _
  have hlen : (chain T log b).length < fuel := (List.length_filter_le _ _).trans_lt hf
  have hinv := fun T' => h.unlink T' hb
  rw [Op.run, objHUnintern, hb]
  generalize chain T log b = c at hs hnodup hlen hinv
  cases c with
  | nil =>
    rw [if_pos (show T.obBucket b = 0 from hs)]
    exact ⟨T, rfl, hinv _ rfl (fun _ _ => rfl) (fun _ _ => rfl) hs⟩
  | cons x xs =>
    obtain ⟨hx, hx0, hrest⟩ := hs
    rw [hx, if_neg hx0]
    by_cases hxo : x = ob
    · rw [if_pos hxo]
      refine ⟨_, rfl, hinv _ rfl (fun ndx hndx => update_of_ne hndx _ _) (fun _ _ => rfl) ?_⟩
      simp only [update_self, ← hxo, List.erase_cons_head]
      exact hrest
    · obtain ⟨next, hrun, hs', hother⟩ :=
        uninternLoop_spec ⟨rfl, hx0, hrest⟩ hnodup hxo (Nat.lt_of_succ_lt hlen)
      rw [if_neg hxo, hrun]
      refine ⟨_, rfl, hinv _ rfl (fun _ _ => rfl) hother ?_⟩
      rw [List.erase_cons_tail (by simpa using hxo), hx]
      exact hs'

theorem Inv.step (h : Inv T log) (hop : op.Proper log) (hf : log.length < fuel) :
    ∃ T', op.run fuel T = .ok T' ∧ Inv T' (op.log log) := by
  cases op with
  | intern ob oid obType =>
    rw [Op.log, List.erase_of_not_mem hop.2]
    exact h.intern hop.1 hop.2 obType
  | unintern ob => exact h.unintern hf
  | setType ob obType => exact ⟨_, rfl, h.nodup, h.ne_zero, h.stack⟩

theorem Run.inv (h : Run Op.Proper T log) : Inv T log := by
  induction h with
  | init h => exact ⟨.nil, List.not_mem_nil, h⟩
  | step _ hop hf hrun ih =>
    obtain ⟨T', hrun', h'⟩ := ih.step hop hf
    obtain rfl := Except.ok.inj (hrun'.symm.trans hrun)
    exact h'

/-- An object is found even if a pot with its OID has been interned later, and a pot even if an object has. -/
theorem latest_mem (hob : ob ∈ log) : latest T log (T.oid ob) (T.kind ob) ∈ log ∧
    T.oid (latest T log (T.oid ob) (T.kind ob)) = T.oid ob ∧
    T.kind (latest T log (T.oid ob) (T.kind ob)) = T.kind ob := by
  obtain ⟨x, hx⟩ := Option.isSome_iff_exists.1 (List.find?_isSome.2 ⟨ob, hob, decide_eq_true ⟨rfl, rfl⟩⟩ :
    (log.find? fun x => T.oid x = T.oid ob ∧ T.kind x = T.kind ob).isSome)
  rw [latest, hx, Option.getD_some]
  exact ⟨List.mem_of_find?_eq_some hx, by simpa using List.find?_some hx⟩

/-- As long as no header is interned that is in the table already, the table is correct. -/
theorem lookup_latest (h : Run Op.Proper T log) : Correct T log where
  lookup _ _ _ hf := h.inv.lookup hf
  found ob hob := by
    have hmem := latest_mem (T := T) hob
    exact ⟨fun h0 => h.inv.ne_zero (h0 ▸ hmem.1), hmem⟩
  returns _ _ hop hf := (h.inv.step hop hf).imp fun _ => And.left

/-- A table without headers. -/
def Table.empty : Table := ⟨fun _ => 0, fun _ => 0, fun _ => 0, fun _ => .ntUnprepared⟩

/-- A tag pot is interned after an object with the same OID. -/
theorem lookup_latest_pot : ∃ T, objHLookup 3 T 5 0 = .ok 1 ∧ Correct T [2, 1] := by
  have h₀ : Run Op.Proper .empty [] := .init fun _ => rfl
  have h₁ : Run Op.Proper _ [1] :=
    .step h₀ (show Op.Proper [] (.intern 1 5 .ptDataPage) from ⟨by decide, by decide⟩) Nat.one_pos rfl
  have h₂ : Run Op.Proper _ [2, 1] :=
    .step h₁ (show Op.Proper [1] (.intern 2 5 .ptTagPot) from ⟨by decide, by decide⟩) Nat.one_lt_two rfl
  exact ⟨_, rfl, lookup_latest h₂⟩

/-- An object is interned again after a pot in the same bucket. When it has been uninterned it is still found. -/
theorem lookup_fails : ¬∀ T log, Run Op.Valid T log → Correct T log := by
  intro hall
  have h₀ : Run Op.Valid .empty [] := .init fun _ => rfl
  have h₁ : Run Op.Valid _ [1] :=
    .step h₀ (show Op.Valid [] (.intern 1 5 .ptDataPage) from Nat.one_ne_zero) Nat.one_pos rfl
  have h₂ : Run Op.Valid _ [2, 1] :=
    .step h₁ (show Op.Valid [1] (.intern 2 5 .ptTagPot) from Nat.succ_ne_zero 1) Nat.one_lt_two rfl
  have h₃ : Run Op.Valid _ [1, 2] :=
    .step h₂ (show Op.Valid [2, 1] (.intern 1 5 .ptDataPage) from Nat.one_ne_zero) (Nat.lt_succ_self 2) rfl
  have h₄ : Run Op.Valid _ [2] :=
    .step h₃ (show Op.Valid [1, 2] (.unintern 1) from trivial) (Nat.lt_succ_self 2) rfl
  have hfound := (hall _ _ h₄).lookup 5 0 3 (by decide)
  revert hfound
  decide

end CapROS.ObHash
