import CapROS.Erosimg.Basic
import CapROS.Kernel.Key

/-!
# Zero pages of an image

An image (`erosimg/ErosImage.c`) has nodes, a directory of keys, and pages. A page that has only zeros is not stored:
it is a number below `nZeroPages`, and a key to it is a page key with the prepared bit. `getPageContentRef` makes a
data page of such a page, before something is written to it.

* `ErosImage`, `addZeroDataPage`, `addDataPage`, `relocateKey`, `getPageContentRef`: the model.
* `getPageContentRef_zeroPage`: the prepared bit is never cleared, so no zero page is turned.
-/

namespace CapROS.Erosimg

/-- A key of an image. If it is to no object, `oid` and `count` are the words of its body. -/
structure KeyBits where
  keyType : KeyType
  /-- `KFL_PREPARED`, the only flag that is used here. -/
  prepared : Bool
  keyPerms : BitVec 5
  keyData : BitVec 16
  oid : ℕ
  count : ℕ
  deriving DecidableEq

namespace KeyBits

/-- `init_DataPageKey`. The `l2g` of the key is 64. -/
def initDataPage (oid : ℕ) (readOnly : Bool) : KeyBits :=
  ⟨.page, false, if readOnly then memoryReadOnly else 0, 64, oid, 0⟩

/-- A page key with the prepared bit, which means that it is to a zero page. -/
def IsZeroPage (key : KeyBits) : Prop := key.keyType = .page ∧ key.prepared = true

instance (key : KeyBits) : Decidable key.IsZeroPage := inferInstanceAs (Decidable (_ ∧ _))

/-- What should become of `key` when the zero page `old` is made the data page `page`, and the other zero pages
get the numbers of `number`. -/
def turned (old page : ℕ) (number : ℕ → ℕ) (key : KeyBits) : KeyBits :=
  if key.IsZeroPage then
    if key.oid = old then { key with prepared := false, oid := page } else { key with oid := number key.oid }
  else key

end KeyBits

/-- What these functions use of an `ErosImage`. -/
structure ErosImage where
  /-- The slots of the nodes, of which there are `nNodes`. -/
  nodeImages : List (Fin 32 → KeyBits)
  /-- The entries, of which there are `nDirEnt`: the index of the name, and the key. -/
  dir : List (ℕ × KeyBits)
  pageImages : ℕ → List UInt8
  nPages : ℕ
  nZeroPages : ℕ

variable {ei ei' : ErosImage} {key pageKey pageKey' : KeyBits} {oid old page : ℕ}

/-- `ei_AddZeroDataPage`. -/
def addZeroDataPage (ei : ErosImage) (readOnly : Bool) : KeyBits × ErosImage :=
  ({ KeyBits.initDataPage ei.nZeroPages readOnly with prepared := true },
    { ei with nZeroPages := u32 (ei.nZeroPages + 1) })

/-- `ei_AddDataPage`. The offset of the page is computed in 32 bits. -/
def addDataPage (ei : ErosImage) (buf : List UInt8) (readOnly : Bool) : KeyBits × ErosImage :=
  (KeyBits.initDataPage ei.nPages readOnly,
    { ei with
      pageImages := fun n => if n = u32 (ei.nPages * pageSize) / pageSize then buf else ei.pageImages n
      nPages := u32 (ei.nPages + 1) })

def relocateKey (key pageKey : KeyBits) (newOid : ℕ) : KeyBits :=
  if key.IsZeroPage then
    if key.oid = pageKey.oid then { key with oid := newOid }
    else if pageKey.oid < key.oid then { key with oid := key.oid - 1 }
    else key
  else key

/-- The keys of an image, changed by `f`. -/
def ErosImage.mapKeys (ei : ErosImage) (f : KeyBits → KeyBits) : ErosImage :=
  { ei with
    nodeImages := ei.nodeImages.map fun slots i => f (slots i)
    dir := ei.dir.map fun e => (e.1, f e.2) }

/-- `ei_GetPageContentRef`: the place in `pageImages`, the new `pageKey`, and the image. -/
def getPageContentRef (ei : ErosImage) (pageKey : KeyBits) : Except Stop (ℕ × KeyBits × ErosImage) :=
  if pageKey.keyType ≠ .page then .error (.fatal 5 "ei_GetPageContentRef requires page key!\n")
  else if pageKey.prepared then
    let (newPage, ei₁) := addDataPage ei (List.replicate pageSize 0) false
    let ei₂ := ei₁.mapKeys fun key => relocateKey key pageKey newPage.oid
    .ok (newPage.oid * pageSize, { pageKey with oid := newPage.oid }, { ei₂ with nZeroPages := ei₂.nZeroPages - 1 })
  else .ok (pageKey.oid * pageSize, pageKey, ei)

/-- The zero page of `pageKey` is made a data page: every key to it is to the new page, the other zero pages keep
their keys, with different numbers below the new count, and no other key is changed. -/
def Turned (ei : ErosImage) (pageKey : KeyBits) (ei' : ErosImage) (pageKey' : KeyBits) : Prop :=
  ∃ page number, (ei.nPages ≤ page ∧ page < ei'.nPages) ∧ ei'.pageImages page = List.replicate pageSize 0 ∧
    (∀ m < ei.nZeroPages, ∀ n < ei.nZeroPages, m ≠ pageKey.oid → n ≠ pageKey.oid → number m = number n → m = n) ∧
    (∀ n < ei.nZeroPages, n ≠ pageKey.oid → number n < ei'.nZeroPages) ∧
    ei'.nodeImages = (ei.mapKeys (KeyBits.turned pageKey.oid page number)).nodeImages ∧
    ei'.dir = (ei.mapKeys (KeyBits.turned pageKey.oid page number)).dir ∧
    pageKey' = pageKey.turned pageKey.oid page number

/-! ## What becomes of a key -/

/-- The number of the zero page `n` when the zero page `old` is removed. -/
def renumber (old n : ℕ) : ℕ := if old < n then n - 1 else n

theorem renumber_injective {m n : ℕ} (hm : m ≠ old) (hn : n ≠ old) (h : renumber old m = renumber old n) :
    m = n := by
  unfold renumber at h
  grind

theorem renumber_lt {n count : ℕ} (hn : n < count) (ho : old < count) (hne : n ≠ old) :
    renumber old n < count - 1 := by
  unfold renumber
  grind

theorem relocateKey_other (page : ℕ) (h : key.IsZeroPage → key.oid ≠ pageKey.oid) :
    relocateKey key pageKey page = key.turned pageKey.oid page (renumber pageKey.oid) := by
  unfold relocateKey KeyBits.turned renumber
  by_cases hz : key.IsZeroPage
  · simp only [if_pos hz, if_neg (h hz)]
    split <;> rfl
  · simp only [if_neg hz]

/-- A key to the page keeps its prepared bit, so it is to the zero page that has the number of the data page. -/
theorem relocateKey_ne_turned {number : ℕ → ℕ} (hz : key.IsZeroPage) (h : key.oid = pageKey.oid) :
    relocateKey key pageKey old ≠ key.turned pageKey.oid page number := by
  rw [relocateKey, KeyBits.turned, if_pos hz, if_pos h, if_pos hz, if_pos h]
  intro heq
  have hprep : key.prepared = false := congrArg KeyBits.prepared heq
  exact Bool.false_ne_true (hprep.symm.trans hz.2)

theorem getPageContentRef_eq (ei : ErosImage) (hz : pageKey.IsZeroPage) :
    ∃ ei', getPageContentRef ei pageKey = .ok (ei.nPages * pageSize, { pageKey with oid := ei.nPages }, ei') ∧
      ei'.nodeImages = (ei.mapKeys fun key => relocateKey key pageKey ei.nPages).nodeImages ∧
      ei'.dir = (ei.mapKeys fun key => relocateKey key pageKey ei.nPages).dir ∧
      ei'.pageImages (u32 (ei.nPages * pageSize) / pageSize) = List.replicate pageSize 0 ∧
      ei'.nPages = u32 (ei.nPages + 1) ∧ ei'.nZeroPages = ei.nZeroPages - 1 := by
  rw [getPageContentRef, if_neg (not_not.mpr hz.1), if_pos hz.2]
  exact ⟨_, rfl, rfl, rfl, if_pos rfl, rfl, rfl⟩

/-- Only the prepared bit of the keys to the page is wrong: the page is added, the pages before it stay, and the other
keys are turned. -/
theorem getPageContentRef_others (hz : pageKey.IsZeroPage) (hn : pageKey.oid < ei.nZeroPages)
    (hp : ei.nPages < 2 ^ 20) :
    ∃ ref pageKey' ei' f number, getPageContentRef ei pageKey = .ok (ref, pageKey', ei') ∧
      ei'.nPages = ei.nPages + 1 ∧
      ei'.pageImages = Function.update ei.pageImages ei.nPages (List.replicate pageSize 0) ∧
      (∀ m n, m ≠ pageKey.oid → n ≠ pageKey.oid → number m = number n → m = n) ∧
      (∀ n < ei.nZeroPages, n ≠ pageKey.oid → number n < ei'.nZeroPages) ∧
      ei'.nodeImages = (ei.mapKeys f).nodeImages ∧ ei'.dir = (ei.mapKeys f).dir ∧ pageKey' = f pageKey ∧
      ∀ key, f key = if key.IsZeroPage ∧ key.oid = pageKey.oid then { key with oid := ei.nPages }
        else key.turned pageKey.oid ei.nPages number := by
  have hpage : u32 (ei.nPages * pageSize) / pageSize = ei.nPages := by
    unfold u32 pageSize
    omega
  rw [getPageContentRef, if_neg (not_not.mpr hz.1), if_pos hz.2]
  refine ⟨_, _, _, fun key => relocateKey key pageKey ei.nPages, renumber pageKey.oid, rfl, ?_, ?_,
    fun m n => renumber_injective, fun n hlt hne => renumber_lt hlt hn hne, rfl, rfl, ?_, fun key => ?_⟩
  · exact Nat.mod_eq_of_lt (by omega)
  · funext n
    simp only [ErosImage.mapKeys, hpage, Function.update_apply]
  · simp only [relocateKey, if_pos hz, if_pos]
    rfl
  · by_cases hkey : key.IsZeroPage ∧ key.oid = pageKey.oid
    · simp only [relocateKey, if_pos hkey, if_pos hkey.1, if_pos hkey.2]
    · rw [if_neg hkey]
      exact relocateKey_other _ (not_and.1 hkey)

/-- An image with a key to the zero page 1 of 2. -/
def twoZeroPages : ErosImage := ⟨[], [(0, ⟨.page, true, 0, 64, 1, 0⟩)], fun _ => [], 0, 2⟩

theorem getPageContentRef_others_two : ∃ ref pageKey' ei', ei'.nPages = 1 ∧
    getPageContentRef twoZeroPages ⟨.page, true, 0, 64, 0, 0⟩ = .ok (ref, pageKey', ei') := by
  obtain ⟨ref, pageKey', ei', f, number, h, hpages, -⟩ :=
    @getPageContentRef_others twoZeroPages ⟨.page, true, 0, 64, 0, 0⟩ (by decide) (by decide) (by decide)
  exact ⟨ref, pageKey', ei', hpages, h⟩

/-- Making a data page of a zero page never does what it should. -/
theorem getPageContentRef_zeroPage (ei : ErosImage) (pageKey : KeyBits) (hz : pageKey.IsZeroPage) :
    ∃ ref pageKey' ei', getPageContentRef ei pageKey = .ok (ref, pageKey', ei') ∧
      ¬Turned ei pageKey ei' pageKey' := by
  obtain ⟨ei', h, -⟩ := getPageContentRef_eq ei hz
  refine ⟨_, _, ei', h, ?_⟩
  rintro ⟨page, number, -, -, -, -, -, -, hkey⟩
  apply relocateKey_ne_turned hz rfl
  rw [relocateKey, if_pos hz, if_pos rfl]
  exact hkey

/-- The image that has one zero page and nothing else. -/
def oneZeroPage : KeyBits × ErosImage := addZeroDataPage ⟨[], [], fun _ => [], 0, 0⟩ false

theorem getPageContentRef_zeroPage_one :
    oneZeroPage.1.IsZeroPage ∧ ∃ ref pageKey' ei', getPageContentRef oneZeroPage.2 oneZeroPage.1 =
      .ok (ref, pageKey', ei') ∧ ¬Turned oneZeroPage.2 oneZeroPage.1 ei' pageKey' :=
  ⟨by decide, getPageContentRef_zeroPage _ _ (by decide)⟩

/-- The page of an image with one zero page is not turned: the key that was to it is now to zero page 0 of 0. -/
theorem getPageContentRef_keeps_prepared :
    oneZeroPage.1.IsZeroPage ∧ oneZeroPage.1.oid < oneZeroPage.2.nZeroPages ∧ ∃ ref pageKey' ei',
      getPageContentRef oneZeroPage.2 oneZeroPage.1 = .ok (ref, pageKey', ei') ∧
        pageKey'.IsZeroPage ∧ ei'.nZeroPages = 0 ∧ ¬Turned oneZeroPage.2 oneZeroPage.1 ei' pageKey' := by
  have hz : oneZeroPage.1.IsZeroPage := by decide
  obtain ⟨ei', h, -, -, -, -, hcount⟩ := getPageContentRef_eq oneZeroPage.2 hz
  refine ⟨hz, by decide, _, _, ei', h, hz, hcount, ?_⟩
  rintro ⟨page, number, -, -, -, -, -, -, hkey⟩
  exact Bool.false_ne_true (congrArg KeyBits.prepared hkey).symm

end CapROS.Erosimg
