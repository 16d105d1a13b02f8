import CapROS.Theory.Bytes

/-!
# The file server

`base/domain/nfile/nfile.c`. The memory of the server is a function from addresses to bytes. Blocks lie in the second
half of the address space, from `storage` on. An inode is a structure of 64 bytes in memory, with 11 pointers to
blocks of data or, if it has layers, to blocks of pointers.

* `Server`, `Op`: the state and operations on it, which can stop with a fault.
-/

namespace CapROS.NFile

open Cells Bytes

def BLOCK_SIZE : ℕ := 4096

def PtrsPerBlock : ℕ := 1024

def logPtrsPerBlock : ℕ := 10

def INO_NINDIR : ℕ := 11

def inodesPerBlock : ℕ := 64

/-- `capros_key_messageLimit`. -/
def BUF_SZ : ℕ := 65536

def keyInfo_server : ℕ := 0x7fff

/-- `sizes_by_layers`. -/
def sizes_by_layers (n : ℕ) : ℕ := INO_NINDIR * BLOCK_SIZE * PtrsPerBlock ^ n

inductive Arch where
  | i486
  | arm

/-- `SUBSPACE_LGSIZE`. -/
def SUBSPACE_LGSIZE : Arch → ℕ
  | .i486 => 30
  | .arm => 24

/-- Where the blocks begin. -/
def Arch.storage (arch : Arch) : ℕ := 2 ^ SUBSPACE_LGSIZE arch

/-- The inode `ss->root`. Its address is not important; it is not in the storage for files. -/
def root : ℕ := 4096

/-- `server_state`, and the memory. -/
structure Server where
  arch : Arch
  mem : ℕ → UInt8
  buf : ℕ
  first_free_inode : ℕ
  first_free_block : ℕ
  top_addr : ℕ
  nxt_uuid : ℕ

/-- Why the server stops. -/
inductive Fault where
  /-- A null pointer is used. -/
  | missingBlock
  /-- An address beyond the storage is used. -/
  | outOfSpace
  /-- `sizes_by_layers` has no such element. -/
  | outOfBounds
  | assertion
  deriving DecidableEq

abbrev Op := EStateM Fault Server

/-! ## The fields of inodes, and pointers -/

section Fields

variable (mem : ℕ → UInt8) (ino : ℕ)

def sz : ℕ := getField mem ino 8

/-- It is in a union with `sz`. -/
def nxt_free : ℕ := getField mem ino 4

def nLayer : ℕ := getField mem (ino + 16) 1

def id : ℕ := getField mem (ino + 18) 2

/-- The address of `indir`. -/
def indir : ℕ := ino + 20

/-- The pointer at the index `ndx` of a table. -/
def ptr (tbl ndx : ℕ) : ℕ := getField mem (tbl + 4 * ndx) 4

def setSz (v : ℕ) : ℕ → UInt8 := setField mem ino 8 v

def setNxtFree (v : ℕ) : ℕ → UInt8 := setField mem ino 4 v

def setUuid (v : ℕ) : ℕ → UInt8 := setField mem (ino + 8) 8 v

def setNLayer (v : ℕ) : ℕ → UInt8 := setField mem (ino + 16) 1 v

def setId (v : ℕ) : ℕ → UInt8 := setField mem (ino + 18) 2 v

def setPtr (tbl ndx v : ℕ) : ℕ → UInt8 := setField mem (tbl + 4 * ndx) 4 v

/-- `bzero`, of a block. -/
def zeroBlock (pg : ℕ) : ℕ → UInt8 := fun i => if pg ≤ i ∧ i < pg + BLOCK_SIZE then 0 else mem i

end Fields

/-- The memory changes. -/
def modifyMem (f : (ℕ → UInt8) → ℕ → UInt8) : Op Unit := modify fun ss => { ss with mem := f ss.mem }

/-! ## Blocks -/

/-- `AllocBlock`. New pages are zero. When there is no more address space, a message is printed, and the result is an
address beyond the storage. -/
def AllocBlock (wantZero : Bool) : Op ℕ := do
  let ss ← get
  if ss.first_free_block ≠ 0 then
    let pg := ss.first_free_block
    set { ss with
      first_free_block := ptr ss.mem pg 0
      mem := if wantZero = true then zeroBlock ss.mem pg else ss.mem }
    return pg
  else
    set { ss with top_addr := ss.top_addr + BLOCK_SIZE }
    return ss.top_addr

/-- Memory in the block at `pg` is used. There is none at the null pointer, and none beyond the storage. -/
def useBlock (pg : ℕ) : Op Unit := do
  let ss ← get
  if pg = 0 then throw .missingBlock
  else if 2 * ss.arch.storage ≤ pg then throw .outOfSpace
  else return ()

inductive Grow where
  | GROW_NOZERO
  | GROW
  | NO_GROW
  deriving DecidableEq

/-- The pointers of an inode go to a new block, from the index `i` on. -/
def moveIndir (ino newIndir : ℕ) : ℕ → ℕ → (ℕ → UInt8) → ℕ → UInt8
  | 0, _, mem => mem
  | n + 1, i, mem =>
    let mem := setPtr mem newIndir i (ptr mem (indir ino) i)
    moveIndir ino newIndir n (i + 1) (setPtr mem (indir ino) i 0)

/-- The first loop of `find_file_page`. -/
def growLoop (ino allocSz : ℕ) : ℕ → Op Unit
  | 0 => throw .outOfBounds
  | fuel + 1 => do
    let ss ← get
    let layers := nLayer ss.mem ino
    if 5 ≤ layers then throw .outOfBounds
    else if allocSz > sizes_by_layers layers then
      let newIndir ← AllocBlock true
      useBlock newIndir
      modifyMem fun mem =>
        let mem := moveIndir ino newIndir INO_NINDIR 0 mem
        let mem := setPtr mem (indir ino) 0 newIndir
        setNLayer mem ino (nLayer mem ino + 1)
      growLoop ino allocSz fuel
    else return ()

/-- The second loop of `find_file_page`, and what follows it: the address of the pointer, or `none` for a null
pointer. -/
def walk (atPg : ℕ) (wantGrow : Grow) : ℕ → ℕ → Op (Option ℕ)
  | 0, blockTable => do
    let ndx := atPg % PtrsPerBlock
    let ss ← get
    if ptr ss.mem blockTable ndx = 0 ∧ wantGrow ≠ .NO_GROW then
      let pg ← AllocBlock (wantGrow = .GROW)
      modifyMem fun mem => setPtr mem blockTable ndx pg
      return some (blockTable + 4 * ndx)
    else return some (blockTable + 4 * ndx)
  | layer + 1, blockTable => do
    let ndx := atPg / 2 ^ ((layer + 1) * logPtrsPerBlock) % PtrsPerBlock
    let ss ← get
    let blockTable := ptr ss.mem blockTable ndx
    if blockTable = 0 then
      if wantGrow = .NO_GROW then return none
      else
        -- The new block is stored with the null pointer for the table.
        let _ ← AllocBlock true
        throw .missingBlock
    else walk atPg wantGrow layer blockTable

/-- `find_file_page`. -/
def find_file_page (ino at' : ℕ) (wantGrow : Grow) : Op (Option ℕ) := do
  let atPg := at' / BLOCK_SIZE
  let allocSz := (atPg + 1) * BLOCK_SIZE % 2 ^ 64
  growLoop ino allocSz 6
  let ss ← get
  walk atPg wantGrow (nLayer ss.mem ino) (indir ino)

/-! ## Files -/

inductive Code where
  | ok
  | requestError
  | unknownRequest
  | noAccess
  | tooManyFiles
  /-- From the space bank. -/
  | limitReached
  deriving DecidableEq

/-- The loop of `write_to_file`: the place in the file after it. -/
def writeLoop (ino : ℕ) : ℕ → ℕ → ℕ → ℕ → Op ℕ
  | 0, at', _, _ => return at'
  | fuel + 1, at', len, buf =>
    if len = 0 then return at'
    else do
      let offset := at' % BLOCK_SIZE
      let nBytes := min (BLOCK_SIZE - offset) len
      let grow := if offset = 0 ∧ nBytes = BLOCK_SIZE then Grow.GROW_NOZERO else .GROW
      match ← find_file_page ino at' grow with
      | none => throw .missingBlock
      | some ppPage =>
        let ss ← get
        let pPage := getField ss.mem ppPage 4
        useBlock pPage
        modifyMem fun mem => write mem (pPage + offset) (read mem buf nBytes)
        writeLoop ino fuel ((at' + nBytes) % 2 ^ 64) (len - nBytes) (buf + nBytes)

/-- `write_to_file`. -/
def write_to_file (ino at' len buf : ℕ) : Op Code := do
  let end' ← writeLoop ino len at' len buf
  let ss ← get
  if end' > sz ss.mem ino then modifyMem fun mem => setSz mem ino end'
  else pure ()
  return .ok

/-- The loop of `read_from_file`. -/
def readLoop (ino : ℕ) : ℕ → ℕ → ℕ → ℕ → Op Unit
  | 0, _, _, _ => return ()
  | fuel + 1, at', len, buf =>
    if len = 0 then return ()
    else do
      let offset := at' % BLOCK_SIZE
      let nBytes := min (BLOCK_SIZE - offset) len
      match ← find_file_page ino at' .NO_GROW with
      | none => modifyMem fun mem => write mem buf (List.replicate nBytes 0)
      | some ppPage =>
        let ss ← get
        let pPage := getField ss.mem ppPage 4
        useBlock pPage
        modifyMem fun mem => write mem buf (read mem (pPage + offset) nBytes)
      readLoop ino fuel ((at' + nBytes) % 2 ^ 64) (len - nBytes) (buf + nBytes)

/-- `read_from_file`: the result and the length. -/
def read_from_file (ino at' rqLen buf : ℕ) : Op (Code × ℕ) := do
  let ss ← get
  if at' > sz ss.mem ino then return (.requestError, rqLen)
  else
    let len := if (at' + rqLen) % 2 ^ 64 > sz ss.mem ino then (sz ss.mem ino - at') % 2 ^ 32 else rqLen
    readLoop ino len at' len buf
    return (.ok, len)

def inodeIDToPtr (id : ℕ) : Op ℕ := do
  let blk := id / inodesPerBlock
  match ← find_file_page root (blk * BLOCK_SIZE) .NO_GROW with
  | none => throw .missingBlock
  | some ppPage =>
    let ss ← get
    let pIno := getField ss.mem ppPage 4
    useBlock pIno
    return pIno + 64 * (id - blk * inodesPerBlock)

/-- The loop of `grow_inode_table`, from the index `i` on. -/
def initInodes (pIno idBase : ℕ) : ℕ → ℕ → (ℕ → UInt8) → ℕ → UInt8
  | 0, _, mem => mem
  | n + 1, i, mem =>
    let mem := setId mem (pIno + 64 * i) (idBase + i)
    initInodes pIno idBase n (i + 1) (setNxtFree mem (pIno + 64 * i) (pIno + 64 * (i + 1)))

/-- `grow_inode_table`. -/
def grow_inode_table : Op Code := do
  let ss ← get
  let oldRootSize := sz ss.mem root
  let oldBlocks := oldRootSize / BLOCK_SIZE
  let newNumInodes := (oldBlocks + 1) * inodesPerBlock
  if newNumInodes ≥ keyInfo_server then return .tooManyFiles
  else
    match ← find_file_page root oldRootSize .GROW with
    | none => throw .missingBlock
    | some ppPage =>
      let ss ← get
      let pIno := getField ss.mem ppPage 4
      useBlock pIno
      let idBase := newNumInodes - inodesPerBlock
      modifyMem fun mem =>
        let mem := initInodes pIno idBase inodesPerBlock 0 mem
        let mem := setNxtFree mem (pIno + 64 * (inodesPerBlock - 1)) 0
        setSz mem root (sz mem root + BLOCK_SIZE)
      modify fun ss => { ss with first_free_inode := pIno }
      return .ok

/-- `create_new_file`: the new inode, or why there is none. -/
def create_new_file : Op (Except Code ℕ) := do
  let ss ← get
  let result ← if ss.first_free_inode = 0 then grow_inode_table else pure Code.ok
  if result ≠ .ok then return .error result
  else
    let ss ← get
    let ino := ss.first_free_inode
    if ∀ i < INO_NINDIR, ptr ss.mem (indir ino) i = 0 then
      set { ss with
        first_free_inode := nxt_free ss.mem ino
        mem := setUuid (setNLayer (setSz ss.mem ino 0) ino 0) ino ss.nxt_uuid
        nxt_uuid := (ss.nxt_uuid + 1) % 2 ^ 64 }
      return .ok ino
    else throw .assertion

/-- A block goes on the free list. -/
def freeBlock (blockTable : ℕ) : Op Unit := modify fun ss =>
  { ss with mem := setPtr ss.mem blockTable 0 ss.first_free_block, first_free_block := blockTable }

/-- A loop over the indices from `i` on. -/
def forRange (f : ℕ → Op Unit) : ℕ → ℕ → Op Unit
  | 0, _ => return ()
  | n + 1, i => do
    f i
    forRange f n (i + 1)

/-- `reclaim_ino_pages`. -/
def reclaim_ino_pages : ℕ → ℕ → Op Unit
  | 0, blockTable => if blockTable = 0 then return () else freeBlock blockTable
  | lvl + 1, blockTable =>
    if blockTable = 0 then return ()
    else do
      forRange (fun i => do
        let ss ← get
        reclaim_ino_pages lvl (ptr ss.mem blockTable i)) PtrsPerBlock 0
      freeBlock blockTable

/-- `destroy_file`. -/
def destroy_file (ino : ℕ) : Op Unit := do
  forRange (fun i => do
    let ss ← get
    reclaim_ino_pages (nLayer ss.mem ino) (ptr ss.mem (indir ino) i)
    modifyMem fun mem => setPtr mem (indir ino) i 0) INO_NINDIR 0
  modify fun ss => { ss with mem := setNxtFree ss.mem ino ss.first_free_inode, first_free_inode := ino }

/-! ## Requests -/

/-- What a key says of itself: `rcv_keyInfo`. -/
inductive KeyInfo where
  | server
  | file (id : ℕ) (readOnly : Bool)

inductive Request where
  /-- `alloc2` is whether the space bank allocates the forwarders. -/
  | createFile (alloc2 : Bool)
  | destroy
  | read (at' len : ℕ)
  | write (at' len : ℕ)
  | getSize

/-- A message: the key, the bytes that were sent and the request. -/
structure Msg where
  keyInfo : KeyInfo
  data : List UInt8
  request : Request

/-- A reply: with words, bytes and the inode of a new file. -/
structure Reply where
  code : Code
  w1 : ℕ := 0
  w2 : ℕ := 0
  data : List UInt8 := []
  key0 : Option ℕ := none
  deriving DecidableEq

def checkRW (readOnly : Bool) (x : Op Reply) : Op Reply := if readOnly = true then return { code := .noAccess } else x

/-- `ProcessRequest`, for the requests about files and their contents. -/
def processRequest (keyInfo : KeyInfo) (request : Request) : Op Reply := do
  match keyInfo with
  | .server =>
    match request with
    | .createFile alloc2 =>
      match ← create_new_file with
      | .error result => return { code := result }
      | .ok ino =>
        if alloc2 = true then
          let ss ← get
          return { code := .ok, key0 := some (id ss.mem ino) }
        else
          destroy_file ino
          return { code := .limitReached }
    -- incomplete
    | .destroy => throw .assertion
    | _ => return { code := .unknownRequest }
  | .file id readOnly =>
    let ino ← inodeIDToPtr id
    match request with
    | .createFile _ => return { code := .unknownRequest }
    | .destroy => checkRW readOnly do
      destroy_file ino
      return { code := .ok }
    | .read at' len => do
      let ss ← get
      let (result, len) ← read_from_file ino at' len ss.buf
      let ss ← get
      return { code := result, data := read ss.mem ss.buf len }
    | .write at' len => checkRW readOnly do
      let ss ← get
      let result ← write_to_file ino at' len ss.buf
      return { code := result, w1 := len }
    | .getSize => do
      let ss ← get
      return { code := .ok, w1 := sz ss.mem ino % 2 ^ 32, w2 := sz ss.mem ino / 2 ^ 32 }

/-- The server receives a message and processes it. -/
def serve (msg : Msg) : Op Reply := do
  modify fun ss => { ss with mem := write ss.mem ss.buf (msg.data.take BUF_SZ) }
  processRequest msg.keyInfo msg.request

/-- `init`. The blocks of the buffer are allocated. -/
def Server.init (arch : Arch) : Server where
  arch := arch
  mem := fun _ => 0
  buf := arch.storage
  first_free_inode := 0
  first_free_block := 0
  top_addr := arch.storage + BUF_SZ
  nxt_uuid := 1

end CapROS.NFile
