import CapROS.Kernel.Types
import CapROS.Theory.SiblingTree

/-!
# The family of banks

The links between the banks of the space bank: `Bank.parent`, `Bank.nextSibling` and
`Bank.firstChild`, the list of free `Bank` structures, and what creating a child and destroying a
bank do to them. What these operations do to the storage of the banks is left to a `Storage`, which
may be any.

* `Family.allocBank`, `Family.freeBank`: the structures.
* `bankCreateChild`, `bankDestroyBankAndStorage`: the two operations.
* `Op`, `Op.run`, `Reach`: the runs of the space bank.
-/

namespace CapROS.SpaceBank

open SiblingTree

def bank0 : ℕ := 1

def primebank : ℕ := 2

def verifybank : ℕ := 3

/-- The banks. A bank is known by its address, and `malloc` hands out the addresses in order. -/
structure Family where
  links : Links
  /-- `FreeBanks`; the first word of a free structure, its `parent`, leads to the next one. -/
  freeBanks : ℕ
  /-- The address that `malloc` hands out next. -/
  top : ℕ
  /-- The banks that exist. -/
  live : Finset ℕ

namespace Family

/-- `alloc_bank`, where `room` tells whether `malloc` finds the space. -/
def allocBank (room : Bool) (F : Family) : Option (ℕ × Family) :=
  if F.freeBanks ≠ 0 then
    some (F.freeBanks,
      { F with
        links := { F.links with parent := Function.update F.links.parent F.freeBanks 0 }
        freeBanks := F.links.parent F.freeBanks
        live := insert F.freeBanks F.live })
  else if room then
    some (F.top,
      { F with
        links := { F.links with parent := Function.update F.links.parent F.top 0 }
        top := F.top + 1
        live := insert F.top F.live })
  else none

def freeBank (bank : ℕ) (F : Family) : Family :=
  { F with
    links := { F.links with parent := Function.update F.links.parent bank F.freeBanks }
    freeBanks := bank
    live := F.live.erase bank }

/-- The links that `bank_initializeBank` sets. It leaves `firstChild` of the new bank alone. -/
def initializeBank (bank parent : ℕ) (F : Family) : Family :=
  if parent ≠ 0 then { F with links := F.links.addFirst bank parent }
  else
    { F with
      links :=
        { F.links with
          parent := Function.update F.links.parent bank 0
          nextSibling := Function.update F.links.nextSibling bank 0 } }

/-- The banks after `bank_init`. -/
def init : Family :=
  initializeBank verifybank primebank
    (initializeBank primebank bank0
      (initializeBank bank0 0 ⟨⟨fun _ => 0, fun _ => 0, fun _ => 0⟩, 0, 4, {bank0, primebank, verifybank}⟩))

/-- `while (curBank->firstChild) curBank = curBank->firstChild`. -/
def leftmost (L : Links) : ℕ → ℕ → Except Halt ℕ
  | 0, _ => .error .diverged
  | n + 1, cur => if L.firstChild cur = 0 then .ok cur else leftmost L n (L.firstChild cur)

/-- The bank is unlinked, `curBank->parent->firstChild = curBank->nextSibling`, and freed. -/
def blowAway (cur : ℕ) (F : Family) : Except Halt Family :=
  if F.links.parent cur = 0 then .error .nullDeref
  else .ok (freeBank cur { F with links := F.links.dropFirst cur })

end Family

/-- What the operations do to the storage of the banks, which they keep in a `σ`. It may depend on the
links between the banks, but does not change them. -/
structure Storage (σ : Type) where
  /-- Whether `malloc` finds the space for another bank. -/
  malloc : Family → σ → Bool × σ
  /-- `BankCreateKey` with no limits: whether it returns `RC_OK`. -/
  createKey : ℕ → Family → σ → Except Halt (Bool × σ)
  /-- `FlushBankCache`, the forwarders of the bank are rescinded, and then `DestroyStorage` or
  `allocTree_mergeTrees`. -/
  clear : Bool → ℕ → ℕ → Family → σ → Except Halt σ

structure System (σ : Type) where
  family : Family
  store : σ

variable {σ : Type}

def bankCreateChild (S : Storage σ) (parent : ℕ) (s : System σ) : Except Halt (System σ) :=
  let (room, store) := S.malloc s.family s.store
  match s.family.allocBank room with
  | none => .ok ⟨s.family, store⟩
  | some (newBank, F) => do
    let F := F.initializeBank newBank parent
    let (rcOk, store) ← S.createKey newBank F store
    if rcOk then .ok ⟨F, store⟩
    else do
      kassert (F.links.firstChild parent = newBank)
      let links :=
        { F.links with
          firstChild := Function.update F.links.firstChild parent (F.links.nextSibling newBank) }
      .ok ⟨Family.freeBank newBank { F with links := links }, store⟩

/-- The loop of `BankDestroyBankAndStorage`, from the bank `curBank` on. -/
def destroyLoop (S : Storage σ) (andStorage : Bool) (parentBank bank : ℕ) :
    ℕ → ℕ → System σ → Except Halt (System σ)
  | 0, _, _ => .error .diverged
  | n + 1, curBank, s => do
    let curBank ← Family.leftmost s.family.links (s.family.top + 1) curBank
    let next := s.family.links.nextSibling curBank
    let store ← S.clear andStorage parentBank curBank s.family s.store
    let F ← s.family.blowAway curBank
    if curBank = bank then .ok ⟨F, store⟩
    else destroyLoop S andStorage parentBank bank n (if next ≠ 0 then next else bank) ⟨F, store⟩

def bankDestroyBankAndStorage (S : Storage σ) (bank : ℕ) (andStorage : Bool) (s : System σ) :
    Except Halt (System σ) :=
  destroyLoop S andStorage (s.family.links.parent bank) bank (s.family.top + 1) bank s

/-! ## Runs -/

/-- The requests that change the family. -/
inductive Op where
  | createChild (parent : ℕ)
  | destroy (bank : ℕ) (andStorage : Bool)

/-- The request is made to a bank that exists. No key to `bank0` is ever given out. -/
def Op.Allowed (s : System σ) : Op → Prop
  | createChild parent => parent ∈ s.family.live
  | destroy bank _ => bank ∈ s.family.live ∧ bank ≠ bank0

instance (s : System σ) : (op : Op) → Decidable (op.Allowed s)
  | .createChild parent => inferInstanceAs (Decidable (parent ∈ s.family.live))
  | .destroy bank _ => inferInstanceAs (Decidable (bank ∈ s.family.live ∧ bank ≠ bank0))

def Op.run (S : Storage σ) (s : System σ) : Op → Except Halt (System σ)
  | createChild parent => bankCreateChild S parent s
  | destroy bank andStorage => bankDestroyBankAndStorage S bank andStorage s

/-- The bank that is destroyed is the first child of its parent. -/
def Op.FirstChild (s : System σ) : Op → Prop
  | createChild _ => True
  | destroy bank _ => s.family.links.firstChild (s.family.links.parent bank) = bank

inductive Reach (S : Storage σ) : System σ → Prop where
  | init (store : σ) : Reach S ⟨.init, store⟩
  | step {s s' : System σ} (op : Op) :
      Reach S s → op.Allowed s → op.run S s = .ok s' → Reach S s'

/-- The states that runs lead to in which only first children are destroyed. -/
inductive FirstChildReach (S : Storage σ) : System σ → Prop where
  | init (store : σ) : FirstChildReach S ⟨.init, store⟩
  | step {s s' : System σ} (op : Op) :
      FirstChildReach S s → op.Allowed s → op.FirstChild s → op.run S s = .ok s' →
        FirstChildReach S s'

/-! ## What is expected of the family -/

/-- Each bank but `bank0` is once in the list of its parent and in no other. -/
structure Orderly (F : Family) : Prop where
  list : ∀ p ∈ F.live, ∃ cs, ChildList F.links p cs ∧ ∀ c ∈ cs, c ∈ F.live ∧ c ≠ bank0
  up : ∀ c ∈ F.live, c ≠ bank0 → F.links.parent c ∈ F.live
  once : ∀ c ∈ F.live, c ≠ bank0 → ∀ p ∈ F.live, ∀ cs, ChildList F.links p cs →
    cs.count c = if p = F.links.parent c then 1 else 0

/-- The bank and those below it are gone. All others are where they were. -/
structure RemovesFamily (F : Family) (bank : ℕ) (F' : Family) : Prop where
  live : ∀ b, b ∈ F'.live ↔ b ∈ F.live ∧ ¬ Below F.links bank0 F.live bank b
  parent : ∀ b ∈ F'.live, F'.links.parent b = F.links.parent b
  list : ∀ p ∈ F'.live, ∀ cs, ChildList F.links p cs → ChildList F'.links p (cs.erase bank)

end CapROS.SpaceBank
