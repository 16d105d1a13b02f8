import CapROS.NodeKey.Basic

/-!
# Constructors

A constructor builds instances of a program. Its builder inserts the constituents, which the
products get, and seals it. A key that is not discreet is a hole, through which a product could
give away what its client tells it. A constructor answers whether it has been sealed without holes.

* `isNotDiscreet`, `insertConstituent`, `insertXconstituent`: the test for holes, and its uses.
* `makeNewProduct`, `Product`: the keys that a product gets.
-/

namespace CapROS.Constructor

open NodeKey (discreet)
open Function (update)

/-- `XCON_KEEPER`, `XCON_ADDRSPACE`, `XCON_SYMTAB`, `XCON_PC`: the extended constituents. -/
def xconKeeper : Fin 32 := 0

@[inherit_doc xconKeeper]
def xconAddrSpace : Fin 32 := 1

@[inherit_doc xconKeeper]
def xconSymtab : Fin 32 := 2

@[inherit_doc xconKeeper]
def xconPC : Fin 32 := 3

/-- `keyInfo_builder` and `keyInfo_requestor`, of the start keys to a constructor. -/
def keyInfoBuilder : BitVec 16 := 0

@[inherit_doc keyInfoBuilder]
def keyInfoRequestor : BitVec 16 := 1

/-- `capros_ProcCre_precludeDestroy`. -/
def precludeDestroy : BitVec 16 := 1

inductive AddrSpaceType where
  | none
  | raw
  | vcs
  deriving DecidableEq

/-- `ConstructorInfo`, with what the constructor keeps in its key registers. -/
structure ConstructorInfo where
  pc : BitVec 32
  addrSpaceType : AddrSpaceType
  frozen : Bool
  hasHoles : Bool
  /-- `KR_YIELDCRE`: the process creator for the products. -/
  yieldCre : ℕ
  /-- `KR_PROD_CON0`: the node for the constituents. -/
  prodCon0 : ℕ
  /-- The slots of that node. -/
  con : Fin 32 → Key
  /-- The slots of the node `KR_PROD_XCON`. -/
  xcon : Fin 32 → Key

/-- `ci->frozen && !ci->has_holes`, the answer to `isDiscreet`. -/
def ConstructorInfo.isDiscreet (ci : ConstructorInfo) : Bool := ci.frozen && !ci.hasHoles

/-- The constructors and the other processes. Process creators are processes too. -/
structure World where
  info : ℕ → Option ConstructorInfo
  /-- The process creator that a process has the brand of. -/
  brand : ℕ → ℕ
  /-- The process has been destroyed. -/
  destroyed : ℕ → Bool
  /-- The numbers from this one on have not been used for processes and nodes. -/
  next : ℕ
  /-- `KC_PROTOSPACE`. -/
  protospace : Key

/-- A start key to a process. -/
def startKey (proc : ℕ) (keyInfo : BitVec 16) : Key := ⟨.start, 0, keyInfo, .prep proc⟩

namespace World

def setInfo (w : World) (c : ℕ) (ci : ConstructorInfo) : World :=
  { w with info := update w.info c (some ci) }

/-- What `key_Prepare` makes of a key to a process that has been destroyed. -/
def prepare (w : World) (k : Key) : Key :=
  match k.keyType, k.body with
  | .start, .prep p | .resume, .prep p | .process, .prep p => if w.destroyed p then .void else k
  | _, _ => k

/-- `capros_Discrim_verify`. -/
def discrimVerify (w : World) (k : Key) : Bool := discreet (w.prepare k)

/-- `capros_ProcCre_amplifyGateKey` of the process creator `cre`: the key info. -/
def amplifyGateKey (w : World) (cre : ℕ) (k : Key) : Option (BitVec 16) :=
  match (w.prepare k).keyType, (w.prepare k).body with
  | .start, .prep p => if w.brand p = cre then some k.keyData else none
  | .resume, .prep p => if w.brand p = cre then some 0 else none
  | _, _ => none

end World

/-! ## The test for holes -/

/-- What a process that is no constructor answers to `isDiscreet`: whether the result is `RC_OK`, and
the word. -/
structure Answer where
  ok : Bool
  isDiscreet : BitVec 32

/-- `capros_Constructor_isDiscreet` of a gate key with the key info 0. A constructor that gets it
answers itself. -/
def World.callIsDiscreet (w : World) (kr : Key) (answer : Answer) : Bool :=
  match kr.keyType, kr.body with
  | .start, .prep p =>
    match w.info p with
    | some ci => ci.isDiscreet
    | none => answer.ok && decide (answer.isDiscreet ≠ 0)
  | _, _ => answer.ok && decide (answer.isDiscreet ≠ 0)

/-- The second test of `is_not_discreet`: a gate key to a process of the constructor's process creator
says that it is discreet. -/
def acceptsAnswer (w : World) (ci : ConstructorInfo) (kr : Key) (answer : Answer) : Bool :=
  match w.amplifyGateKey ci.yieldCre kr with
  | some keyInfo => decide (keyInfo = 0) && w.callIsDiscreet kr answer
  | none => false

def isNotDiscreet (w : World) (ci : ConstructorInfo) (kr : Key) (answer : Answer) : Bool :=
  if w.discrimVerify kr then false else !acceptsAnswer w ci kr answer

/-- `add_new_hole`, if the key is not discreet. -/
def checkHole (w : World) (ci : ConstructorInfo) (kr : Key) (answer : Answer) : ConstructorInfo :=
  if isNotDiscreet w ci kr answer then { ci with hasHoles := true } else ci

/-- `RC_*`. -/
inductive Code where
  | ok
  | requestError
  | unknownRequest
  /-- The error of a process creator that cannot make a process. -/
  | createFailed
  deriving DecidableEq

def insertConstituent (w : World) (ci : ConstructorInfo) (ndx : BitVec 32) (kr : Key)
    (answer : Answer) : ConstructorInfo × Code :=
  if h : ndx.toNat < 32 then
    let ci := checkHole w ci kr answer
    ({ ci with con := update ci.con ⟨ndx.toNat, h⟩ kr }, .ok)
  else (ci, .requestError)

def insertXconstituent (w : World) (ci : ConstructorInfo) (ndx : Fin 32) (kr : Key)
    (answer : Answer) : ConstructorInfo :=
  let ci := checkHole w ci kr answer
  { ci with xcon := update ci.xcon ndx kr }

/-! ## Products -/

/-- The keys that a product starts with. -/
structure Product where
  proc : ℕ
  /-- `KR_CONSTIT`: a read-only key to the node of the constituents. -/
  constit : Key
  schedule : Key
  keeper : Key
  /-- `KR_SELF`. -/
  self : Key
  /-- `KR_CREATOR`. -/
  creator : Key
  /-- `KR_BANK`. -/
  bank : Key
  /-- `KR_SCHED`. -/
  sched : Key
  symSpace : Key
  /-- `PSKR_SPACE` and `PSKR_PROC_PC`, for the program that makes the address space. -/
  pskr : Option (Key × Key)
  addrSpace : Key
  pc : BitVec 32
  /-- `KR_ARG(0)`. -/
  arg0 : Key
  /-- `KR_RETURN`. -/
  ret : Key

/-- The order codes. -/
inductive Op where
  | isDiscreet
  | request
  | seal
  | insertConstituent
  | insertKeeper
  | insertAddrSpace32
  | insertVCSAddrSpace32
  | insertSymtab
  | destroy
  | getType
  | other
  deriving DecidableEq

/-- A message to a constructor. -/
structure Message where
  op : Op
  w1 : BitVec 32
  /-- `KR_ARG0` to `KR_ARG2`. -/
  arg0 : Key
  arg1 : Key
  arg2 : Key
  /-- `KR_RETURN`. -/
  ret : Key

/-- What happens elsewhere during a request. -/
structure Choices where
  /-- The answer to `isDiscreet` of a process that is no constructor. -/
  answer : Answer
  /-- The process creator makes a process. -/
  created : Bool

/-- What a request leads to. -/
structure Reply where
  code : Code
  w1 : ℕ
  key0 : Option Key
  product : Option Product

/-- A reply without a key. -/
def answerCode (code : Code) (w1 : ℕ) : Reply := ⟨code, w1, none, none⟩

/-- `AKT_ConstructorRequestor`, which the build generates, is some number. -/
def aktConstructorRequestor : ℕ := 1

def makeNewProduct (w : World) (ci : ConstructorInfo) (m : Message) (created : Bool) :
    Except Halt (World × Reply) :=
  if created then
    let newDom := w.next
    let w := { w with next := w.next + 1, brand := update w.brand newDom ci.yieldCre }
    let space := match ci.addrSpaceType with
      | .none => none
      | .vcs => some (some (ci.xcon xconAddrSpace, ci.xcon xconPC), w.protospace, 0)
      | .raw => some (none, ci.xcon xconAddrSpace, ci.pc)
    match space with
    | none => .error .assertion
    | some (pskr, addrSpace, pc) =>
      .ok (w, ⟨.ok, 0, none, some {
        proc := newDom
        constit := ⟨.node, nodeReadOnly, 0, .prep ci.prodCon0⟩
        schedule := m.arg1
        keeper := ci.xcon xconKeeper
        self := ⟨.process, 0, 0, .prep newDom⟩
        creator := startKey ci.yieldCre precludeDestroy
        bank := m.arg0
        sched := m.arg1
        symSpace := ci.xcon xconSymtab
        pskr, addrSpace, pc
        arg0 := m.arg2
        ret := m.ret }⟩)
  else .ok (w, answerCode .createFailed 0)

/-! ## Requests -/

/-- `ProcessRequest` of the constructor `c`. -/
def processRequest (w : World) (c : ℕ) (ci : ConstructorInfo) (m : Message) (choices : Choices) :
    Except Halt (World × Reply) :=
  match m.op with
  | .isDiscreet => .ok (w, answerCode .ok ci.isDiscreet.toNat)
  | .request => makeNewProduct w ci m choices.created
  | .seal =>
    if ci.addrSpaceType = .none then .ok (w, answerCode .requestError 0)
    else .ok (w.setInfo c { ci with frozen := true },
      ⟨.ok, 0, some (startKey c keyInfoRequestor), none⟩)
  | .insertConstituent =>
    let (ci, code) := insertConstituent w ci m.w1 m.arg0 choices.answer
    .ok (w.setInfo c ci, answerCode code 0)
  | .insertKeeper =>
    .ok (w.setInfo c (insertXconstituent w ci xconKeeper m.arg0 choices.answer), answerCode .ok 0)
  | .insertAddrSpace32 =>
    let ci := { ci with addrSpaceType := .raw, pc := m.w1 }
    .ok (w.setInfo c (insertXconstituent w ci xconAddrSpace m.arg0 choices.answer), answerCode .ok 0)
  | .insertVCSAddrSpace32 =>
    let pcKey := NodeKey.numberKeyOf 0 0 m.w1
    let ci := { ci with
      xcon := update ci.xcon xconPC pcKey
      addrSpaceType := .vcs
      pc := m.w1 }
    .ok (w.setInfo c (insertXconstituent w ci xconAddrSpace m.arg0 choices.answer), answerCode .ok 0)
  | .insertSymtab =>
    .ok (w.setInfo c (insertXconstituent w ci xconSymtab m.arg0 choices.answer), answerCode .ok 0)
  | .destroy =>
    .ok ({ w with
      info := update w.info c none
      destroyed := update w.destroyed c true }, answerCode .ok 0)
  | .getType => .ok (w, answerCode .ok aktConstructorRequestor)
  | .other => .ok (w, answerCode .unknownRequest 0)

/-- A message to the constructor `c` through a start key with this key info. -/
def request (w : World) (c : ℕ) (ci : ConstructorInfo) (keyInfo : BitVec 16) (m : Message)
    (choices : Choices) : Except Halt (World × Reply) :=
  if keyInfo = keyInfoBuilder then processRequest w c ci m choices
  else if ci.frozen then
    if m.op = .getType then .ok (w, answerCode .ok aktConstructorRequestor)
    else makeNewProduct w ci m choices.created
  else .error .assertion

/-- `InitConstructor` of a constructor that the metaconstructor makes, when it gets the process
creator and the nodes. -/
def newInfo (yieldCre prodCon0 : ℕ) : ConstructorInfo where
  pc := 0
  addrSpaceType := .none
  frozen := false
  hasHoles := false
  yieldCre
  prodCon0
  con _ := .void
  xcon _ := .void

/-- The steps of a run. -/
inductive Step where
  /-- A process creator makes a constructor, and that gets its own process creator. -/
  | construct (metaCre pcc : ℕ)
  /-- A process that is no constructor is made or destroyed. -/
  | makeProcess (cre : ℕ)
  | destroyProcess (p : ℕ)
  /-- A message to a constructor. -/
  | send (c : ℕ) (keyInfo : BitVec 16) (m : Message) (choices : Choices)

namespace Step

/-- Take the step. -/
def run (w : World) : Step → Except Halt (World × Reply)
  | construct metaCre pcc =>
    let c := w.next
    .ok ({ w with
      next := w.next + 3
      info := update w.info c (some (newInfo (c + 1) (c + 2)))
      brand := update (update w.brand c metaCre) (c + 1) pcc }, answerCode .ok 0)
  | makeProcess cre =>
    .ok ({ w with next := w.next + 1, brand := update w.brand w.next cre }, answerCode .ok 0)
  | destroyProcess p =>
    .ok ({ w with destroyed := update w.destroyed p true }, answerCode .ok 0)
  | send c keyInfo m choices =>
    match w.info c with
    | some ci => request w c ci keyInfo m choices
    | none => .ok (w, answerCode .unknownRequest 0)

/-- Only processes that are no constructors are destroyed from outside. A key to a requestor is made
by sealing the constructor. -/
def Allowed (w : World) : Step → Prop
  | destroyProcess p => p < w.next ∧ w.info p = none
  | send c keyInfo _ _ => ∀ ci, w.info c = some ci → keyInfo ≠ keyInfoBuilder → ci.frozen = true
  | _ => True

end Step

/-- The first state: there may be primordial constructors, which are sealed and hold the constituents
that the system image gives them. -/
structure World.IsInit (w : World) : Prop where
  used : ∀ c ci, w.info c = some ci → c < w.next
  frozen : ∀ c ci, w.info c = some ci → ci.frozen = true
  hasHoles : ∀ c ci, w.info c = some ci → ci.hasHoles = false
  destroyed : ∀ p, w.destroyed p = true → p < w.next ∧ w.info p = none

/-- The states that can be reached from `w₀`. -/
inductive Reach (w₀ : World) : World → Prop where
  | init : Reach w₀ w₀
  | step {w w' : World} {reply : Reply} (step : Step) : Reach w₀ w → step.Allowed w →
      step.run w = .ok (w', reply) → Reach w₀ w'

end CapROS.Constructor
