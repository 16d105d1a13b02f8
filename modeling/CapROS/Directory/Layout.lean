import CapROS.Directory.Basic
import CapROS.Theory.Records

/-!
# The entries of a directory

The entries tile the pages, and the loops find what is there.
-/

namespace CapROS.Directory

open Cells Bytes Records

variable {mem mem' : Memory} {dp dp' v n a i len fuel top entno bytes free_bytes : ℕ} {name : List UInt8}

/-! ## Bytes -/

theorem d_reclen_lt (mem : Memory) (dp : ℕ) : d_reclen mem dp < 65536 :=
  getField_lt mem (dp + 4) 2

theorem DIRSIZ_le (mem : Memory) (dp : ℕ) : DIRSIZ mem dp ≤ 268 := by
  have h : d_namlen mem dp < 256 := (mem (dp + 7)).toNat_lt
  unfold DIRSIZ
  omega

/-! ## Entries -/

/-- An entry: its length and, if it is in use, its number and name. -/
structure Ent where
  reclen : ℕ
  used : Option (ℕ × List UInt8)

/-- The content of an entry of the length `reclen` is at `dp`. -/
def Holds (mem : Memory) (dp reclen : ℕ) : Option (ℕ × List UInt8) → Prop
  | none => d_inuse mem dp = 0
  | some (entno, name) => d_inuse mem dp ≠ 0 ∧ d_entno mem dp = entno ∧ d_namlen mem dp = name.length ∧
      strEq mem (d_name dp) name ∧ entryLen name ≤ reclen

/-- The entry is at `dp`. -/
structure At (mem : Memory) (dp : ℕ) (e : Ent) : Prop where
  reclen : d_reclen mem dp = e.reclen
  le : 12 ≤ e.reclen
  aligned : 4 ∣ e.reclen
  holds : Holds mem dp e.reclen e.used

/-- The bytes in an entry that `find_space` takes for free. -/
def Ent.free (e : Ent) : ℕ :=
  match e.used with
  | none => e.reclen
  | some (_, name) => e.reclen - entryLen name

theorem name_lt_entryLen (name : List UInt8) : 8 + name.length < entryLen name := by
  unfold entryLen
  omega

theorem four_dvd_entryLen (name : List UInt8) : 4 ∣ entryLen name := by
  unfold entryLen
  omega

theorem le_entryLen (name : List UInt8) : 12 ≤ entryLen name := by
  unfold entryLen
  omega

theorem Holds.congr {reclen : ℕ} {used : Option (ℕ × List UInt8)} (h : Holds mem dp reclen used)
    (hmin : 12 ≤ reclen) (hsame : ∀ i, dp ≤ i → i < dp + reclen → i < dp + 4 ∨ dp + 6 ≤ i → mem' i = mem i) :
    Holds mem' dp reclen used := by
  have hinuse : d_inuse mem' dp = d_inuse mem dp := hsame _ (by omega) (by omega) (by omega)
  cases used with
  | none => exact hinuse.trans h
  | some u =>
    obtain ⟨entno, name⟩ := u
    obtain ⟨hu, hno, hlen, ⟨hread, hnull⟩, hle⟩ := h
    have hlt := name_lt_entryLen name
    refine ⟨hinuse ▸ hu, ?_, ?_, ⟨?_, ?_⟩, hle⟩
    · rw [← hno]
      exact congrArg ofBytes (read_congr fun i hl hr => hsame i hl (by omega) (by omega))
    · rw [← hlen]
      exact congrArg UInt8.toNat (hsame _ (by omega) (by omega) (by omega))
    · refine (read_congr fun i hl hr => ?_).trans hread
      simp only [d_name] at hl hr
      exact hsame i (by omega) (by omega) (by omega)
    · refine (hsame _ ?_ ?_ ?_).trans hnull
      · simp only [d_name]
        omega
      · simp only [d_name]
        omega
      · simp only [d_name]
        omega

theorem at_local : Local At Ent.reclen := by
  intro mem mem' dp e h hsame
  have hmin := h.le
  refine ⟨?_, hmin, h.aligned, h.holds.congr hmin fun i hl hr _ => hsame i hl hr⟩
  rw [← h.reclen]
  exact congrArg ofBytes (read_congr fun i hl hr => hsame i (by omega) (by omega))

variable {e : Ent}

theorem At.match_iff (h : At mem dp e) :
    (d_inuse mem dp ≠ 0 ∧ d_namlen mem dp = name.length ∧ strEq mem (d_name dp) name) ↔
      ∃ entno, e.used = some (entno, name) := by
  have hholds := h.holds
  cases hused : e.used with
  | none =>
    rw [hused] at hholds
    exact iff_of_false (fun hmatch => hmatch.1 hholds) fun ⟨_, hno⟩ => by cases hno
  | some u =>
    obtain ⟨entno, name'⟩ := u
    rw [hused] at hholds
    obtain ⟨hu, -, hlen, heq, -⟩ := hholds
    constructor
    · rintro ⟨-, hlen', heq'⟩
      have hread := heq.1
      rw [← hlen, hlen', heq'.1] at hread
      exact ⟨entno, by rw [hread]⟩
    · rintro ⟨entno', hsome⟩
      obtain ⟨-, rfl⟩ := Prod.mk.inj (Option.some.inj hsome)
      exact ⟨hu, hlen, heq⟩

theorem At.freeBytes_eq (h : At mem dp e) : freeBytes mem dp = e.free := by
  have hreclen := h.reclen
  have hlt := d_reclen_lt mem dp
  have hsiz := DIRSIZ_le mem dp
  have hholds := h.holds
  unfold freeBytes Ent.free
  cases hused : e.used with
  | none =>
    rw [hused] at hholds
    have hfree : d_inuse mem dp = 0 := hholds
    simp only [if_pos hfree]
    omega
  | some u =>
    obtain ⟨entno, name⟩ := u
    rw [hused] at hholds
    obtain ⟨hu, -, hlen, -, hle⟩ := hholds
    have hdirsiz : DIRSIZ mem dp = entryLen name := by
      rw [DIRSIZ, hlen, entryLen, Nat.add_comm 8]
    simp only [if_neg hu, hdirsiz]
    omega

/-! ## Writing entries -/

theorem setFree_of_ne (hi : i < dp + 4 ∨ dp + 12 ≤ i) : setFree mem dp n i = mem i := by
  simp only [setFree, setReclen, setInuse, setNamlen, d_name]
  obtain hi | hi := hi
  · rw [write_of_lt (by omega), write_of_lt (by omega), write_of_lt (by omega), setField_of_ne (by omega)]
  · rw [write_of_le (by simpa using hi), write_of_le (by simp; omega), write_of_le (by simp; omega),
      setField_of_ne (by omega)]

theorem at_setFree (hmin : 12 ≤ n) (hdvd : 4 ∣ n) (hlt : n < 65536) : At (setFree mem dp n) dp ⟨n, none⟩ := by
  refine ⟨?_, hmin, hdvd, ?_⟩
  · simp only [d_reclen, setFree, setNamlen, setInuse, setReclen, d_name]
    rw [getField_write (by omega), getField_write (by omega), getField_write (by omega)]
    exact getField_setField hlt
  · simp only [Holds, d_inuse, setFree, setNamlen, setInuse, d_name]
    rw [write_of_lt (by omega), write_of_lt (by omega)]
    exact write_replicate (n := 1) le_rfl (Nat.lt_succ_self _)

theorem writeEntry_of_ne (hi : i < dp ∨ dp + entryLen name + 8 ≤ i) :
    writeEntry mem dp entno name i = mem i := by
  have hpad : (name.length + 4) / 4 * 4 + 8 = entryLen name := rfl
  simp only [writeEntry, setEntno, setInuse, setNamlen, d_name, hpad]
  obtain hi | hi := hi
  · rw [write_of_lt (by omega), write_of_lt (by omega), write_of_lt (by omega), write_of_lt (by omega),
      setField_of_ne (by omega)]
  · rw [write_of_le (by rw [List.length_replicate]; omega), write_of_le (by omega),
      write_of_le (by rw [List.length_singleton]; omega), write_of_le (by rw [List.length_singleton]; omega),
      setField_of_ne (by omega)]

theorem d_reclen_writeEntry : d_reclen (writeEntry mem dp entno name) dp = d_reclen mem dp := by
  simp only [d_reclen, writeEntry, setEntno, setInuse, setNamlen, d_name]
  rw [getField_write (by omega), getField_write (by omega), getField_write (by omega), getField_write (by omega)]
  exact getField_setField_of_disjoint (.inr le_rfl)

theorem at_writeEntry (h : At mem dp ⟨n, none⟩) (hentno : entno < 2 ^ 32) (hname : name.length ≤ MAXNAMLEN)
    (hle : entryLen name ≤ n) : At (writeEntry mem dp entno name) dp ⟨n, some (entno, name)⟩ := by
  have hname : name.length < 256 := Nat.lt_succ_of_le hname
  refine ⟨d_reclen_writeEntry.trans h.reclen, h.le, h.aligned, ?_, ?_, ?_, ⟨?_, ?_⟩, hle⟩
  · simp only [d_inuse, writeEntry, setNamlen, setInuse, d_name]
    rw [write_of_lt (by omega), write_of_lt (by omega), write_of_lt (by omega)]
    have hone := @write_replicate (setEntno mem dp entno) (dp + 6) (dp + 6) 1 1 le_rfl (Nat.lt_succ_self _)
    exact ne_of_eq_of_ne hone (by decide)
  · simp only [d_entno, writeEntry, setEntno, setInuse, setNamlen, d_name]
    rw [getField_write (by omega), getField_write (by omega), getField_write (by omega), getField_write (by omega)]
    exact getField_setField hentno
  · simp only [d_namlen, writeEntry, setNamlen, d_name]
    rw [write_of_lt (by omega), write_of_lt (by omega)]
    have hbyte := @write_replicate (setInuse (setEntno mem dp entno) dp 1) (dp + 7) (dp + 7) 1
      (UInt8.ofNat name.length) le_rfl (Nat.lt_succ_self _)
    have htoNat : (UInt8.ofNat name.length).toNat = name.length % 256 := UInt8.toNat_ofNat'
    exact (congrArg UInt8.toNat hbyte).trans (htoNat.trans (Nat.mod_eq_of_lt hname))
  · simp only [writeEntry, d_name]
    rw [read_write_below le_rfl]
    exact read_write _ _ _
  · simp only [writeEntry, d_name]
    exact write_replicate le_rfl (by omega)

/-- The entry in which `find_space` makes room, and the memory then. -/
def vacate (mem : Memory) (dp : ℕ) (e : Ent) : Memory × ℕ :=
  match e.used with
  | none => (mem, dp)
  | some _ => splitEntry mem dp e.free

/-- What is left of an entry in use when the rest is taken from it. -/
def Ent.front (e : Ent) : List Ent :=
  match e.used with
  | none => []
  | some (entno, name) => [⟨entryLen name, some (entno, name)⟩]

theorem Ent.free_le (e : Ent) : e.free ≤ e.reclen := by
  unfold Ent.free
  split
  · exact le_rfl
  · exact Nat.sub_le _ _

theorem At.total_front (h : At mem dp e) : total Ent.reclen e.front + e.free = e.reclen := by
  have hholds := h.holds
  unfold Ent.front Ent.free
  cases hused : e.used with
  | none => simp
  | some u =>
    rw [hused] at hholds
    obtain ⟨-, -, -, -, hle⟩ := hholds
    simp only [total_cons, total_nil]
    omega

theorem At.aligned_free (h : At mem dp e) : 4 ∣ e.free := by
  have haligned := h.aligned
  unfold Ent.free
  split
  · exact haligned
  · rename_i name _
    exact Nat.dvd_sub haligned (four_dvd_entryLen name)

theorem laid_vacate (h : At mem dp e) (hfree : 12 ≤ e.free) :
    (vacate mem dp e).2 = dp + total Ent.reclen e.front ∧
      Laid At Ent.reclen (vacate mem dp e).1 dp (e.front ++ [⟨e.free, none⟩]) ∧
      ∀ i, i < dp ∨ dp + e.reclen ≤ i → (vacate mem dp e).1 i = mem i := by
  have htotal := h.total_front
  have haligned := h.aligned_free
  have hlt : e.free < 65536 := by
    have hfree := e.free_le
    have hreclen := h.reclen ▸ d_reclen_lt mem dp
    omega
  have hholds := h.holds
  unfold vacate Ent.front at *
  cases hused : e.used with
  | none =>
    have hreclen : e.free = e.reclen := by rw [Ent.free, hused]
    rw [hused] at hholds
    exact ⟨rfl, ⟨⟨hreclen ▸ h.reclen, hfree, haligned, hholds⟩, trivial⟩, fun _ _ => rfl⟩
  | some u =>
    obtain ⟨entno, name⟩ := u
    rw [hused] at hholds htotal
    have hdirsiz : DIRSIZ mem dp = entryLen name := by
      rw [DIRSIZ, hholds.2.2.1, entryLen, Nat.add_comm 8]
    simp only [total_cons, total_nil, Nat.add_zero] at htotal ⊢
    have hmin := le_entryLen name
    -- The new length is written before the new entry.
    have hset : d_reclen (setReclen mem dp (entryLen name)) dp = entryLen name := by
      have hreclen := h.reclen ▸ d_reclen_lt mem dp
      exact getField_setField (show entryLen name < 65536 by omega)
    have hnext : NEXTDIR (setReclen mem dp (entryLen name)) dp = dp + entryLen name := by rw [NEXTDIR, hset]
    simp only [splitEntry, hdirsiz, hnext]
    refine ⟨trivial, ⟨⟨?_, hmin, four_dvd_entryLen name, ?_⟩, ?_, trivial⟩, fun i hi => ?_⟩
    · refine (congrArg ofBytes (read_congr fun i _ hr => ?_)).trans hset
      exact setFree_of_ne (by omega)
    · obtain ⟨hu, hno, hnamlen, heq, -⟩ := hholds
      have hown : Holds mem dp (entryLen name) (some (entno, name)) := ⟨hu, hno, hnamlen, heq, le_rfl⟩
      refine hown.congr hmin fun i hl hr hne => ?_
      rw [setFree_of_ne (by omega)]
      exact setField_of_ne hne
    · exact at_setFree hfree haligned hlt
    · rw [setFree_of_ne (by omega)]
      exact setField_of_ne (by omega)

/-! ## The loops -/

variable {l r es p : List Ent} {e : Ent} {pages : List (List Ent)}

/-- The numbers and names of the entries in use. -/
def usedEnts (l : List Ent) : List (ℕ × List UInt8) := l.filterMap Ent.used

@[simp] theorem usedEnts_append : usedEnts (l ++ r) = usedEnts l ++ usedEnts r := List.filterMap_append

theorem find_spec (name : List UInt8) (h : Laid At Ent.reclen mem a es) (htop : top = a + total Ent.reclen es)
    (hfuel : es.length < fuel) :
    (find mem top name fuel a = some none ∧ ∀ u ∈ usedEnts es, u.2 ≠ name) ∨
      ∃ l e r entno, es = l ++ e :: r ∧ e.used = some (entno, name) ∧
        find mem top name fuel a = some (some (a + total Ent.reclen l)) := by
  induction es generalizing a fuel with
  | nil =>
    obtain ⟨fuel, rfl⟩ := Nat.exists_eq_add_of_lt hfuel
    refine .inl ⟨?_, fun u hu => by cases hu⟩
    have htop : a = top := htop.symm
    rw [find, if_neg (not_not.2 htop)]
  | cons e es ih =>
    obtain ⟨fuel, rfl⟩ := Nat.exists_eq_succ_of_ne_zero (by omega : fuel ≠ 0)
    obtain ⟨he, hes⟩ := h
    rw [total_cons] at htop
    have hmin := he.le
    rw [find, if_pos (by omega)]
    by_cases hmatch : d_inuse mem a ≠ 0 ∧ d_namlen mem a = name.length ∧ strEq mem (d_name a) name
    · obtain ⟨entno, hused⟩ := he.match_iff.1 hmatch
      exact .inr ⟨[], e, es, entno, rfl, hused, by rw [if_pos hmatch]; rfl⟩
    · rw [if_neg hmatch, NEXTDIR, he.reclen]
      obtain ⟨hnone, hnot⟩ | ⟨l, e', r, entno, rfl, hused, hsome⟩ :=
        ih hes (by omega) (Nat.lt_of_succ_lt_succ hfuel)
      · refine .inl ⟨hnone, fun u hu => ?_⟩
        obtain ⟨e', he', hu'⟩ := List.mem_filterMap.1 hu
        obtain rfl | he' := List.mem_cons.1 he'
        · exact fun heq => hmatch (he.match_iff.2 ⟨u.1, by rw [hu', ← heq]⟩)
        · exact hnot u (List.mem_filterMap.2 ⟨e', he', hu'⟩)
      · exact .inr ⟨e :: l, e', r, entno, rfl, hused, by rw [hsome, total_cons, Nat.add_assoc]⟩

/-- The free bytes of the entries. -/
def freeTotal (p : List Ent) : ℕ := (p.map Ent.free).sum

theorem scanPage_spec (h : Laid At Ent.reclen mem a p) (hpage : bytes + total Ent.reclen p = EROS_PAGE_SIZE)
    (hfree : free_bytes ≤ bytes) (hfuel : p.length < fuel) :
    (∃ l e r, p = l ++ e :: r ∧ (∀ e' ∈ l, e'.free < len) ∧ len ≤ e.free ∧
      scanPage mem len fuel a bytes free_bytes = some (.found (vacate mem (a + total Ent.reclen l) e).1
        (vacate mem (a + total Ent.reclen l) e).2)) ∨
      (∀ e ∈ p, e.free < len) ∧ scanPage mem len fuel a bytes free_bytes =
        some (.pageEnd (a + total Ent.reclen p) (free_bytes + freeTotal p)) := by
  induction p generalizing a bytes free_bytes fuel with
  | nil =>
    obtain ⟨fuel, rfl⟩ := Nat.exists_eq_succ_of_ne_zero (by omega : fuel ≠ 0)
    rw [total_nil] at hpage
    refine .inr ⟨fun e he => (by cases he), ?_⟩
    rw [scanPage, if_neg (by omega)]
    rfl
  | cons e p ih =>
    obtain ⟨fuel, rfl⟩ := Nat.exists_eq_succ_of_ne_zero (by omega : fuel ≠ 0)
    obtain ⟨he, hp⟩ := h
    rw [total_cons] at hpage
    have hmin := he.le
    have hle := e.free_le
    simp only [scanPage, he.freeBytes_eq]
    rw [if_pos (by omega)]
    by_cases hfits : len ≤ e.free
    · refine .inl ⟨[], e, p, rfl, fun e' he' => (by cases he'), hfits, ?_⟩
      have hholds := he.holds
      simp only [vacate, total_nil, Nat.add_zero]
      cases hused : e.used with
      | none =>
        rw [hused] at hholds
        exact if_pos ⟨hholds, hfits⟩
      | some u =>
        rw [hused] at hholds
        rw [if_neg fun hfree => hholds.1 hfree.1]
        exact if_pos ⟨hholds.1, hfits⟩
    · rw [if_neg fun hboth => hfits hboth.2, if_neg fun hboth => hfits hboth.2, NEXTDIR, he.reclen]
      have hsmall : free_bytes + e.free < 2 ^ 32 := by
        simp only [EROS_PAGE_SIZE] at hpage
        omega
      rw [Nat.mod_eq_of_lt hsmall]
      obtain ⟨l, e', r, rfl, hl, hfits', hscan⟩ | ⟨hall, hscan⟩ :=
        @ih _ fuel (bytes + e.reclen) (free_bytes + e.free) hp (by omega) (by omega) (Nat.lt_of_succ_lt_succ hfuel)
      · refine .inl ⟨e :: l, e', r, rfl, ?_, hfits', by rw [hscan, total_cons, Nat.add_assoc]⟩
        exact List.forall_mem_cons.2 ⟨not_le.1 hfits, hl⟩
      · refine .inr ⟨List.forall_mem_cons.2 ⟨not_le.1 hfits, hall⟩, ?_⟩
        have hsum : freeTotal (e :: p) = e.free + freeTotal p := List.sum_cons
        rw [hscan, total_cons, hsum, Nat.add_assoc, Nat.add_assoc]

/-- The first page with enough free bytes has them in one entry, and there is more room than the true length of
the new entry. Or there is no such page, and room for another page. -/
def Roomy (len : ℕ) (room : Prop) : List (List Ent) → Prop
  | [] => room
  | p :: pages =>
    match p.find? fun e => decide (len ≤ e.free) with
    | some e => len + 8 ≤ e.free
    | none => freeTotal p < len ∧ Roomy len room pages

/-- As `Roomy`, with `need` bytes in the entry. -/
def Fits (len need : ℕ) (room : Prop) : List (List Ent) → Prop
  | [] => room
  | p :: pages =>
    match p.find? fun e => decide (len ≤ e.free) with
    | some e => need ≤ e.free
    | none => freeTotal p < len ∧ Fits len need room pages

variable {room : Prop}

theorem roomy_iff : Roomy len room pages ↔ Fits len (len + 8) room pages := by
  induction pages with
  | nil => exact Iff.rfl
  | cons p pages ih => rw [Roomy, Fits, ih]

theorem find_space_spec {need : ℕ} (hroomy : Fits len need room pages)
    (h : Laid At Ent.reclen mem a pages.flatten) (hfull : ∀ p ∈ pages, total Ent.reclen p = EROS_PAGE_SIZE)
    (htop : top = a + total Ent.reclen pages.flatten)
    (hfuel : pages.length + pages.flatten.length < fuel) :
    (find_space mem top len fuel a = some none ∧ room) ∨
      ∃ front l e r back, pages = front ++ (l ++ e :: r) :: back ∧ need ≤ e.free ∧
        find_space mem top len fuel a = some (some (vacate mem (a + total Ent.reclen (front.flatten ++ l)) e)) := by
  induction pages generalizing a fuel with
  | nil =>
    obtain ⟨fuel, rfl⟩ := Nat.exists_eq_succ_of_ne_zero (by omega : fuel ≠ 0)
    refine .inl ⟨?_, hroomy⟩
    have htop : a = top := htop.symm
    rw [find_space, if_neg (not_not.2 htop)]
  | cons p pages ih =>
    obtain ⟨fuel, rfl⟩ := Nat.exists_eq_succ_of_ne_zero (by omega : fuel ≠ 0)
    rw [List.flatten_cons] at h htop
    rw [List.flatten_cons, List.length_append, List.length_cons] at hfuel
    obtain ⟨hp, hpages⟩ := laid_append.1 h
    have hpage := hfull p List.mem_cons_self
    rw [total_append, hpage] at htop
    have hpos : 0 < EROS_PAGE_SIZE := by decide
    rw [Fits] at hroomy
    rw [find_space, if_pos (by omega)]
    obtain ⟨l, e, r, rfl, hl, hfits, hscan⟩ | ⟨hall, hscan⟩ :=
      @scanPage_spec mem a len fuel 0 0 p hp (by omega) le_rfl (by omega)
    · have hfind : (l ++ e :: r).find? (fun e => decide (len ≤ e.free)) = some e := by
        rw [List.find?_append, List.find?_eq_none.2 fun e' he' => by simpa using hl e' he', Option.none_or,
          List.find?_cons_of_pos (by simpa using hfits)]
      rw [hfind] at hroomy
      exact .inr ⟨[], l, e, r, pages, rfl, hroomy, by rw [hscan]; rfl⟩
    · have hfind : p.find? (fun e => decide (len ≤ e.free)) = none :=
        List.find?_eq_none.2 fun e he => by simpa using hall e he
      rw [hfind] at hroomy
      obtain ⟨hsum, hroomy⟩ := hroomy
      rw [Nat.zero_add] at hscan
      simp only [hscan, if_neg (not_le.2 hsum)]
      obtain hnone | ⟨front, l, e, r, back, rfl, hfits, hsome⟩ :=
        @ih _ fuel hroomy hpages (fun q hq => hfull q (List.mem_cons_of_mem p hq)) (by omega) (by omega)
      · exact .inl hnone
      · refine .inr ⟨p :: front, l, e, r, back, rfl, hfits, ?_⟩
        rw [hsome, List.flatten_cons, List.append_assoc, @total_append _ _ p, Nat.add_assoc]

/-! ## Pages -/

/-- The entries tile the pages. -/
structure Layout (mem : Memory) (pages : List (List Ent)) (top : ℕ) : Prop where
  laid : Laid At Ent.reclen mem 0 pages.flatten
  full : ∀ p ∈ pages, total Ent.reclen p = EROS_PAGE_SIZE
  top : top = total Ent.reclen pages.flatten

variable {front back : List (List Ent)}

theorem Layout.at_entry (h : Layout mem (front ++ (l ++ e :: r) :: back) top) :
    At mem (total Ent.reclen (front.flatten ++ l)) e := by
  have hlaid : Laid At Ent.reclen mem 0 ((front.flatten ++ l) ++ e :: (r ++ back.flatten)) := by
    simpa using h.laid
  obtain ⟨-, he, -⟩ := laid_append.1 hlaid
  rwa [Nat.zero_add] at he

theorem Layout.replace (h : Layout mem (front ++ (l ++ e :: r) :: back) top)
    (hes : Laid At Ent.reclen mem' (total Ent.reclen (front.flatten ++ l)) es)
    (htotal : total Ent.reclen es = e.reclen)
    (hsame : ∀ i, i < total Ent.reclen (front.flatten ++ l) ∨ total Ent.reclen (front.flatten ++ l) + e.reclen ≤ i →
      mem' i = mem i) :
    Layout mem' (front ++ (l ++ es ++ r) :: back) top := by
  obtain ⟨hlaid, hfull, htop⟩ := h
  refine ⟨?_, fun p hp => ?_, ?_⟩
  · have hlaid' : Laid At Ent.reclen mem 0 ((front.flatten ++ l) ++ e :: (r ++ back.flatten)) := by
      simpa using hlaid
    have hreplaced := hlaid'.replace at_local (by rwa [Nat.zero_add]) htotal (by simpa using hsame)
    simpa using hreplaced
  · rw [List.mem_append, List.mem_cons] at hp
    obtain hp | rfl | hp := hp
    · exact hfull p (by simp [hp])
    · rw [← hfull (l ++ e :: r) (by simp)]
      simp only [total_append, total_cons, htotal]
      omega
    · exact hfull p (by simp [hp])
  · rw [htop]
    simp only [List.flatten_append, List.flatten_cons, total_append, total_cons, htotal]
    omega

theorem At.unique {e' : Ent} (h : At mem dp e) (h' : At mem dp e') : e = e' := by
  obtain ⟨reclen, used⟩ := e
  obtain ⟨reclen', used'⟩ := e'
  obtain rfl : reclen = reclen' := h.reclen.symm.trans h'.reclen
  have hholds := h.holds
  have hholds' := h'.holds
  cases used with
  | none =>
    cases used' with
    | none => rfl
    | some u' => exact absurd hholds hholds'.1
  | some u =>
    cases used' with
    | none => exact absurd hholds' hholds.1
    | some u' =>
      obtain ⟨-, hno, hlen, ⟨hread, -⟩, -⟩ := hholds
      obtain ⟨-, hno', hlen', ⟨hread', -⟩, -⟩ := hholds'
      rw [← hlen] at hread
      rw [← hlen', hread] at hread'
      exact congrArg (Ent.mk reclen) (congrArg some (Prod.ext (hno.symm.trans hno') hread'))

theorem Layout.unique {pages' : List (List Ent)} (h : Layout mem pages top) (h' : Layout mem pages' top) :
    pages = pages' := by
  have hat : ∀ ⦃mem dp⦄ ⦃e e' : Ent⦄, At mem dp e → At mem dp e' → e = e' := fun _ _ _ _ => At.unique
  have hpos : ∀ ⦃mem dp⦄ ⦃e : Ent⦄, At mem dp e → 0 < e.reclen :=
    fun _ _ _ h => Nat.lt_of_lt_of_le (by decide) h.le
  obtain ⟨hlaid, hfull, htop⟩ := h
  obtain ⟨hlaid', hfull', htop'⟩ := h'
  have hlength : pages.length = pages'.length := by
    rw [htop, total_flatten hfull, total_flatten hfull'] at htop'
    exact Nat.eq_of_mul_eq_mul_right (by decide : 0 < EROS_PAGE_SIZE) htop'
  clear htop htop'
  generalize 0 = a at hlaid hlaid'
  induction pages generalizing a pages' with
  | nil => exact (List.length_eq_zero_iff.1 hlength.symm).symm
  | cons p pages ih =>
    obtain _ | ⟨p', pages'⟩ := pages'
    · cases hlength
    obtain ⟨hp, hpages⟩ := laid_append.1 (by simpa using hlaid)
    obtain ⟨hp', hpages'⟩ := laid_append.1 (by simpa using hlaid')
    have htotal := hfull p List.mem_cons_self
    have htotal' := hfull' p' List.mem_cons_self
    obtain rfl := hp.unique hat hpos hp' (htotal.trans htotal'.symm)
    rw [ih (fun q hq => hfull q (List.mem_cons_of_mem p hq)) (fun q hq => hfull' q (List.mem_cons_of_mem p hq))
      (Nat.succ.inj hlength) _ hpages hpages']

theorem Layout.newPage (h : Layout mem pages top) :
    Layout (write mem top blank_page) (pages ++ [[⟨EROS_PAGE_SIZE, none⟩]]) (top + EROS_PAGE_SIZE) := by
  obtain ⟨hlaid, hfull, htop⟩ := h
  refine ⟨?_, fun p hp => ?_, ?_⟩
  · rw [List.flatten_append, laid_append, Nat.zero_add, ← htop]
    refine ⟨hlaid.frame at_local fun i _ hi => write_of_lt (by omega), ⟨?_, by decide, by decide, ?_⟩, trivial⟩
    · have hbytes : read (write mem top blank_page) (top + 4) 2 = toBytes 2 EROS_PAGE_SIZE :=
        congrArg₂ (fun x y => [x, y]) (@write_add mem top 4 blank_page (by decide))
          (@write_add mem top 5 blank_page (by decide))
      rw [d_reclen, getField, hbytes]
      rfl
    · exact @write_add mem top 6 blank_page (by decide)
  · rw [List.mem_append, List.mem_singleton] at hp
    obtain hp | rfl := hp
    · exact hfull p hp
    · rfl
  · rw [List.flatten_append, total_append, ← htop]
    rfl

end CapROS.Directory
