import CapROS.Kernel.Types

/-!
# Keys

The representation of a key (`disk/KeyStruct.h`). A key has a type, five permission bits, the 16
bits of `keyData`, and a body whose form depends on the type. A prepared object key points to the
header of an object in memory; headers of current versions and OIDs correspond one to one, so the
model lets the pointer be the OID.
-/

namespace CapROS

/-- The types of keys, `KKT_*` in the source. Types that no modelled code looks at are `misc`. -/
inductive KeyType where
  | void
  | number
  | page
  | node
  | gpt
  | forwarder
  | process
  | start
  | resume
  | range
  | primeRange
  | physRange
  | discrim
  | sched
  | misc (code : ℕ)
  deriving DecidableEq, Repr

/-- The words of a key whose meaning depends on its type. -/
inductive KeyBody where
  /-- The value of a number key, or words that do not matter. -/
  | words (w0 w1 w2 : ℕ)
  /-- An unprepared object key: the object and the count that must match. -/
  | unprep (oid : ℕ) (count : ℕ)
  /-- A prepared object key: the object in memory. -/
  | prep (oid : ℕ)
  /-- A Range key. -/
  | range (oid : ℕ) (count : ℕ)
  deriving DecidableEq, Repr

/-- A node has 32 slots. -/
instance neZero_slots : NeZero 32 := ⟨by decide⟩

/-- A Number key has three words. -/
instance neZero_words : NeZero 3 := ⟨by decide⟩

structure Key where
  keyType : KeyType
  keyPerms : BitVec 5
  keyData : BitVec 16
  body : KeyBody
  deriving DecidableEq

namespace Key

/-- `keyBits_InitToVoid`. -/
def void : Key := ⟨.void, 0, 0, .words 0 0 0⟩

/-- `keyBits_IsType`. -/
def isType (k : Key) (t : KeyType) : Bool := decide (k.keyType = t)

/-- `keyBits_IsObjectKey`. -/
def isObjectKey (k : Key) : Bool :=
  match k.keyType with
  | .page | .node | .gpt | .forwarder | .process | .start | .resume => true
  | _ => false

/-- `keyBits_SetL2g`: the first byte of `keyData`. -/
def setL2g (k : Key) (l2g : BitVec 8) : Key :=
  { k with keyData := (k.keyData &&& 0xff00) ||| l2g.zeroExtend 16 }

/-- `keyBits_GetL2g`. -/
def l2g (k : Key) : ℕ := (k.keyData &&& 0xff).toNat

/-- `keyBits_GetGuard`. -/
def guard (k : Key) : ℕ := (k.keyData >>> 8).toNat

/-- `key_SetGuardData`. -/
def setGuardData (k : Key) (guard l2g : ℕ) : Key :=
  { k with keyData := BitVec.ofNat 16 (guard % 256 * 256 + l2g % 256) }

/-- Some permission bit of the mask is set. -/
def hasPerm (k : Key) (mask : BitVec 5) : Bool := decide (k.keyPerms &&& mask ≠ 0)

/-- `keyPerms |= mask`. -/
def restrict (k : Key) (mask : BitVec 5) : Key := { k with keyPerms := k.keyPerms ||| mask }

end Key

/-- `capros_Memory_opaque`, also `capros_Node_opaque`. -/
def memoryOpaque : BitVec 5 := 1

/-- `capros_Memory_weak`. The same bit of a Node key is `capros_Node_readOnly`. -/
def memoryWeak : BitVec 5 := 2

/-- `capros_Memory_noCall`. -/
def memoryNoCall : BitVec 5 := 4

/-- `capros_Memory_readOnly`. -/
def memoryReadOnly : BitVec 5 := 8

/-- `capros_Node_readOnly`. -/
def nodeReadOnly : BitVec 5 := 2

/-- `keyBits_IsNoCall`. -/
def Key.isNoCall (k : Key) : Bool := k.hasPerm (memoryNoCall ||| memoryWeak)

end CapROS
