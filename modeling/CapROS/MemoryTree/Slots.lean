import CapROS.MemoryTree.WalkCorrect

/-!
# The slots that a translation depends on
-/

namespace CapROS.MemoryTree

def Memory.setSlot (mem : Memory) (o : ℕ) (i : Fin 32) (k : Key) : Memory :=
  let gpt : Gpt := { mem.gpt o with slot := Function.update (mem.gpt o).slot i k }
  { mem with gpt := Function.update mem.gpt o gpt }

/-- The slot that a window of the GPT `o` is on. -/
def windowSlot (background : Option ℕ) (o : ℕ) (k : Key) : List (ℕ × Fin 32) :=
  let wslot := (numberValue k).2.2.toNat % 256
  if wslot < gptNSlots then [(o, Fin.ofNat 32 wslot)]
  else if wslot = 0xff then
    (background.map fun b => (b, Fin.ofNat 32 gptBackgroundSlot)).toList
  else []

/-- The slots that are read to go on from the GPT `o`. -/
def slotsAt (mem : Memory) (background : Option ℕ) (o offset : ℕ) : List (ℕ × Fin 32) :=
  let ndx := Fin.ofNat 32 (offset / 2 ^ (mem.gpt o).curL2v)
  let k := (mem.gpt o).slot ndx
  (o, ndx) :: if k.keyType = .number then windowSlot background o k else []

/-- The place that the path goes on to from the GPT `o`. -/
def next (mem : Memory) (write : Bool) (background : Option ℕ) (o : ℕ) (place : Place) :
    Except FaultCode Place := do
  let (k, offset, trail) ← selectSlot mem write background (mem.gpt o) place.trail place.offset
  enterKey mem write trail k offset

/-- The slots that are read in a translation. -/
def slotsRead (mem : Memory) (stopL2v : ℕ) :
    (depth : ℕ) → (background : Option ℕ) → Place → List (ℕ × Fin 32)
  | depth, background, place =>
    match place.object with
    | .page _ => []
    | .gpt o =>
      if (mem.gpt o).curL2v < stopL2v then []
      else
        match depth with
        | 0 => []
        | depth + 1 =>
          let background := backgroundBelow mem background o
          slotsAt mem background o place.offset ++
            match next mem false background o place with
            | .ok place' => slotsRead mem stopL2v depth background place'
            | .error _ => []

variable {mem : Memory} {write : Bool} {stopL2v o o' : ℕ} {i : Fin 32} {k : Key}
  {background : Option ℕ} {place found : Place}

variable {depth p offset va : ℕ}

theorem translateAt_gpt (ho : place.object = .gpt o)
    (hstop : ¬(mem.gpt o).curL2v < stopL2v) :
    translateAt mem write stopL2v (depth + 1) background place =
      (next mem write (backgroundBelow mem background o) o place >>=
        translateAt mem write stopL2v depth (backgroundBelow mem background o)) := by
  rw [next]
  unfold translateAt
  simp only [ho, if_neg hstop, bind_assoc]

theorem translateAt_zero (ho : place.object = .gpt o)
    (hstop : ¬(mem.gpt o).curL2v < stopL2v) :
    translateAt mem write stopL2v 0 background place = .error .traverseLimit := by
  unfold translateAt
  simp only [ho, if_neg hstop]

theorem translateAt_stop (ho : place.object = .gpt o)
    (hstop : (mem.gpt o).curL2v < stopL2v) :
    translateAt mem write stopL2v depth background place = .ok place := by
  unfold translateAt
  simp only [ho, if_pos hstop]

theorem translateAt_page (hp : place.object = .page p) :
    translateAt mem write stopL2v depth background place =
      if place.offset < erosPageSize then .ok place else .error .invalidAddr := by
  unfold translateAt
  simp only [hp]

theorem slotsRead_gpt (ho : place.object = .gpt o)
    (hstop : ¬(mem.gpt o).curL2v < stopL2v) :
    slotsRead mem stopL2v (depth + 1) background place =
      slotsAt mem (backgroundBelow mem background o) o place.offset ++
        match next mem false (backgroundBelow mem background o) o place with
        | .ok place' => slotsRead mem stopL2v depth (backgroundBelow mem background o) place'
        | .error _ => [] := by
  rw [slotsRead]
  simp only [ho, if_neg hstop]

/-! ## Storing a key -/

theorem setSlot_gpt (mem : Memory) (o : ℕ) (i : Fin 32) (k : Key) (o' : ℕ) :
    ((mem.setSlot o i k).gpt o').l2vField = (mem.gpt o').l2vField ∧
      ∀ j, (o', j) ≠ (o, i) → ((mem.setSlot o i k).gpt o').slot j = (mem.gpt o').slot j := by
  by_cases ho : o' = o
  · subst ho
    have hgpt : (mem.setSlot o' i k).gpt o' =
        { mem.gpt o' with slot := Function.update (mem.gpt o').slot i k } := Function.update_self ..
    rw [hgpt]
    refine ⟨rfl, fun j hj => Function.update_of_ne (fun h => hj ?_) ..⟩
    rw [h]
  · have hgpt : (mem.setSlot o i k).gpt o' = mem.gpt o' := Function.update_of_ne ho ..
    rw [hgpt]
    exact ⟨rfl, fun _ _ => rfl⟩

@[simp]
theorem setSlot_curL2v : ((mem.setSlot o i k).gpt o').curL2v = (mem.gpt o').curL2v := by
  rw [Gpt.curL2v, (setSlot_gpt mem o i k o').1, Gpt.curL2v]

@[simp]
theorem setSlot_hasBackground :
    ((mem.setSlot o i k).gpt o').hasBackground = (mem.gpt o').hasBackground := by
  rw [Gpt.hasBackground, (setSlot_gpt mem o i k o').1, Gpt.hasBackground]

@[simp]
theorem setSlot_maxSlot : ((mem.setSlot o i k).gpt o').maxSlot = (mem.gpt o').maxSlot := by
  rw [Gpt.maxSlot, Gpt.maxSlot, Gpt.hasKeeper, Gpt.hasKeeper, setSlot_hasBackground,
    (setSlot_gpt mem o i k o').1]

@[simp]
theorem setSlot_backgroundBelow :
    backgroundBelow (mem.setSlot o i k) background o' = backgroundBelow mem background o' := by
  rw [backgroundBelow, setSlot_hasBackground, backgroundBelow]

theorem setSlot_keyAtSlot {n : ℕ} (h : (o, i) ≠ (o', Fin.ofNat 32 n)) :
    ((mem.setSlot o i k).gpt o').keyAtSlot n = (mem.gpt o').keyAtSlot n :=
  (setSlot_gpt mem o i k o').2 _ (Ne.symm h)

theorem setSlot_windowKey {w : Key} (h : (o, i) ∉ windowSlot background o' w) :
    windowKey (mem.setSlot o i k) background ((mem.setSlot o i k).gpt o') w =
      windowKey mem background (mem.gpt o') w := by
  unfold windowSlot at h
  unfold windowKey
  dsimp only at h ⊢
  split at h
  case isTrue hlocal =>
    rw [if_pos hlocal, if_pos hlocal, setSlot_keyAtSlot (by simpa using h)]
  case isFalse hlocal =>
    rw [if_neg hlocal, if_neg hlocal]
    split at h
    case isTrue hbackground =>
      rw [if_pos hbackground, if_pos hbackground]
      cases background with
      | none => rfl
      | some b =>
        rw [Option.map_some, Option.map_some, setSlot_keyAtSlot (by simpa using h)]
    case isFalse hbackground => rw [if_neg hbackground, if_neg hbackground]

theorem setSlot_next (h : (o, i) ∉ slotsAt mem background o' place.offset) :
    next (mem.setSlot o i k) write background o' place = next mem write background o' place := by
  simp only [slotsAt, List.mem_cons, not_or] at h
  obtain ⟨hne, hwindow⟩ := h
  have hkey : ((mem.setSlot o i k).gpt o').keyAtSlot (place.offset / 2 ^ (mem.gpt o').curL2v) =
      (mem.gpt o').keyAtSlot (place.offset / 2 ^ (mem.gpt o').curL2v) := setSlot_keyAtSlot hne
  have hsel : selectSlot (mem.setSlot o i k) write background ((mem.setSlot o i k).gpt o')
      place.trail place.offset =
        selectSlot mem write background (mem.gpt o') place.trail place.offset := by
    simp only [selectSlot, setSlot_curL2v, setSlot_maxSlot, hkey]
    split
    · rfl
    · split
      case isTrue htype =>
        rw [if_pos (show ((mem.gpt o').slot _).keyType = .number from htype)] at hwindow
        have hw : windowKey (mem.setSlot o i k) background ((mem.setSlot o i k).gpt o')
            ((mem.gpt o').keyAtSlot (place.offset / 2 ^ (mem.gpt o').curL2v)) =
          windowKey mem background (mem.gpt o')
            ((mem.gpt o').keyAtSlot (place.offset / 2 ^ (mem.gpt o').curL2v)) :=
          setSlot_windowKey hwindow
        simp only [enterWindow, setSlot_curL2v, hw]
      case isFalse => rfl
  rw [next, hsel]
  rfl

theorem translateAt_setSlot (depth : ℕ) :
    ∀ {background : Option ℕ} {place : Place},
      (o, i) ∉ slotsRead mem stopL2v depth background place →
      translateAt (mem.setSlot o i k) false stopL2v depth background place =
          translateAt mem false stopL2v depth background place ∧
        slotsRead (mem.setSlot o i k) stopL2v depth background place =
          slotsRead mem stopL2v depth background place := by
  induction depth with
  | zero =>
    intro background place _
    unfold translateAt slotsRead
    cases place.object with
    | page p => exact ⟨rfl, rfl⟩
    | gpt o' => simp only [setSlot_curL2v, and_self]
  | succ depth ih =>
    intro background place h
    cases hobj : place.object with
    | page p =>
      unfold translateAt slotsRead
      simp only [hobj, and_self]
    | gpt o' =>
      by_cases hstop : (mem.gpt o').curL2v < stopL2v
      · unfold translateAt slotsRead
        simp only [hobj, setSlot_curL2v, hstop, if_true, and_self]
      · have hstop' : ¬((mem.setSlot o i k).gpt o').curL2v < stopL2v := by rwa [setSlot_curL2v]
        rw [slotsRead_gpt hobj hstop, List.mem_append, not_or] at h
        obtain ⟨hat, hrest⟩ := h
        have hnext : next (mem.setSlot o i k) false (backgroundBelow mem background o') o' place =
            next mem false (backgroundBelow mem background o') o' place := setSlot_next hat
        have hslots : slotsAt (mem.setSlot o i k) (backgroundBelow mem background o') o'
            place.offset = slotsAt mem (backgroundBelow mem background o') o' place.offset := by
          simp only [slotsAt, List.mem_cons, not_or] at hat
          simp only [slotsAt, setSlot_curL2v, (setSlot_gpt mem o i k o').2 _ (Ne.symm hat.1)]
        rw [translateAt_gpt hobj hstop, translateAt_gpt hobj hstop', slotsRead_gpt hobj hstop,
          slotsRead_gpt hobj hstop', setSlot_backgroundBelow, hnext, hslots]
        cases hplace : next mem false (backgroundBelow mem background o') o' place with
        | error code => exact ⟨rfl, rfl⟩
        | ok place' =>
          rw [hplace] at hrest
          obtain ⟨htrans, hread⟩ := ih hrest
          exact ⟨htrans, congrArg _ hread⟩

/-! ## Reading in place of writing -/

theorem selectSlot_of_selects {gpt : Gpt} {window trail : List (BitVec 8)}
    (h : Selects mem background gpt offset k va window) (hro : (readOnlyPath (trail ++ window) && write) = false) :
    selectSlot mem write background gpt trail offset = .ok (k, va, trail ++ window) := by
  cases h with
  | direct hndx htype =>
    simp only [selectSlot, if_neg (not_lt.2 hndx), if_neg htype, List.append_nil]
  | window hndx hw htype halign hk =>
    subst hw
    simp only [selectSlot, if_neg (not_lt.2 hndx), if_pos htype, enterWindow, hk,
      if_neg (not_not.2 halign), hro, Bool.false_eq_true, if_false]

theorem enterKey_of_leads {object : MemObj} (h : Leads mem k va object offset)
    (trail : List (BitVec 8)) :
    enterKey mem false trail k va =
      .ok ⟨object, offset, trail ++ [(mem.keyPrepare k).keyPerms.zeroExtend 8]⟩ := by
  simp only [enterKey, h.designates, ok_bind, if_neg (not_not.2 h.guard), Bool.and_false,
    Bool.false_eq_true, if_false, ← h.offset_eq]

theorem next_weaken (h : next mem write background o place = .ok found) :
    ∃ rest, found.trail = place.trail ++ rest ∧
      ∀ trail, next mem false background o { place with trail } =
        .ok { found with trail := trail ++ rest } := by
  obtain ⟨⟨k, va, trail'⟩, hslot, hkey⟩ := of_bind_ok h
  obtain ⟨window, hsel, htrail'⟩ := of_selectSlot_ok hslot
  obtain ⟨hlead, htrail, -⟩ := of_enterKey_ok hkey
  refine ⟨window ++ [(mem.keyPrepare k).keyPerms.zeroExtend 8], ?_, fun trail => ?_⟩
  · rw [htrail, htrail', List.append_assoc]
  · simp only [next, selectSlot_of_selects hsel (Bool.and_false _), ok_bind, enterKey_of_leads hlead,
      List.append_assoc]

/-- The translation for reading, with more depth left and other restrictions before it, ends in the
same place and reads the same slots. -/
def Weakens (mem : Memory) (stopL2v depth : ℕ) (background : Option ℕ) (place found : Place) :
    Prop :=
  ∃ rest, found.trail = place.trail ++ rest ∧ ∀ depth' ≥ depth, ∀ trail,
    translateAt mem false stopL2v depth' background { place with trail } =
        .ok { found with trail := trail ++ rest } ∧
      slotsRead mem stopL2v depth' background { place with trail } =
        slotsRead mem stopL2v depth background place

theorem weakens_page (hp : place.object = .page p)
    (h : translateAt mem write stopL2v depth background place = .ok found) :
    Weakens mem stopL2v depth background place found := by
  rw [translateAt_page hp] at h
  split at h
  case isFalse => cases h
  case isTrue hoff =>
    cases h
    refine ⟨[], (List.append_nil _).symm, fun depth' _ trail => ⟨?_, ?_⟩⟩
    · have hp' : ({ place with trail } : Place).object = .page p := hp
      rw [translateAt_page hp', if_pos hoff, List.append_nil]
    · unfold slotsRead
      simp only [hp]

theorem weakens_stop (ho : place.object = .gpt o)
    (hstop : (mem.gpt o).curL2v < stopL2v)
    (h : translateAt mem write stopL2v depth background place = .ok found) :
    Weakens mem stopL2v depth background place found := by
  rw [translateAt_stop ho hstop] at h
  cases h
  refine ⟨[], (List.append_nil _).symm, fun depth' _ trail => ⟨?_, ?_⟩⟩
  · have ho' : ({ place with trail } : Place).object = .gpt o := ho
    rw [translateAt_stop ho' hstop, List.append_nil]
  · unfold slotsRead
    simp only [ho, if_pos hstop]

theorem page_or_gpt (object : MemObj) : (∃ p, object = .page p) ∨ ∃ o, object = .gpt o := by
  cases object with
  | page p => exact Or.inl ⟨p, rfl⟩
  | gpt o => exact Or.inr ⟨o, rfl⟩

theorem translateAt_weaken (depth : ℕ) :
    ∀ {background : Option ℕ} {place found : Place},
      translateAt mem write stopL2v depth background place = .ok found →
      Weakens mem stopL2v depth background place found := by
  induction depth with
  | zero =>
    intro background place found h
    obtain ⟨p, hp⟩ | ⟨o, ho⟩ := page_or_gpt place.object
    · exact weakens_page hp h
    · by_cases hstop : (mem.gpt o).curL2v < stopL2v
      · exact weakens_stop ho hstop h
      · rw [translateAt_zero ho hstop] at h
        cases h
  | succ depth ih =>
    intro background place found h
    obtain ⟨p, hp⟩ | ⟨o, ho⟩ := page_or_gpt place.object
    · exact weakens_page hp h
    · by_cases hstop : (mem.gpt o).curL2v < stopL2v
      · exact weakens_stop ho hstop h
      · rw [translateAt_gpt ho hstop] at h
        obtain ⟨place', hnext, h⟩ := of_bind_ok h
        obtain ⟨rest, htrail, hweak⟩ := next_weaken hnext
        obtain ⟨rest', htrail', hrest⟩ := ih h
        refine ⟨rest ++ rest', ?_, fun depth' hdepth trail => ?_⟩
        · rw [htrail', htrail, List.append_assoc]
        · match depth', hdepth with
          | depth' + 1, hdepth =>
            obtain ⟨htrans, hread⟩ := hrest depth' (Nat.le_of_succ_le_succ hdepth) (trail ++ rest)
            -- The slots are defined by the step for reading.
            have hsame : next mem false (backgroundBelow mem background o) o place = .ok place' := by
              have hstep := hweak place.trail
              rwa [← htrail] at hstep
            have ho' : ({ place with trail } : Place).object = .gpt o := ho
            rw [translateAt_gpt ho' hstop, slotsRead_gpt ho' hstop, slotsRead_gpt ho hstop,
              hweak trail, hsame]
            refine ⟨?_, congrArg _ hread⟩
            rw [← List.append_assoc]
            exact htrans

/-! ## Writing in place of reading -/

theorem readOnlyPath_append (trail rest : List (BitVec 8)) :
    readOnlyPath (trail ++ rest) = (readOnlyPath trail || readOnlyPath rest) := List.any_append

theorem next_write (h : next mem false background o place = .ok found)
    (hro : readOnlyPath found.trail = false) : next mem true background o place = .ok found := by
  obtain ⟨⟨k, va, trail'⟩, hslot, hkey⟩ := of_bind_ok h
  obtain ⟨-, htrail, -⟩ := of_enterKey_ok hkey
  rw [htrail] at hro
  have hro' : readOnlyPath trail' = false := by
    rw [readOnlyPath_append, Bool.or_eq_false_iff] at hro
    exact hro.1
  have hslot' : selectSlot mem true background (mem.gpt o) place.trail place.offset =
      .ok (k, va, trail') := by
    obtain ⟨window, hsel, rfl⟩ := of_selectSlot_ok hslot
    exact selectSlot_of_selects hsel (by rw [hro', Bool.false_and])
  simp only [next, hslot', ok_bind]
  obtain ⟨object, hobject, hkey⟩ := of_bind_ok hkey
  simp only [enterKey, hobject, ok_bind, hro, Bool.false_and, Bool.false_eq_true, if_false] at hkey ⊢
  simpa only [Bool.and_false, Bool.false_eq_true, if_false] using hkey

theorem translateAt_write (depth : ℕ) :
    ∀ {background : Option ℕ} {place found : Place},
      translateAt mem false stopL2v depth background place = .ok found →
      readOnlyPath found.trail = false →
      translateAt mem true stopL2v depth background place = .ok found := by
  induction depth with
  | zero =>
    intro background place found h _
    unfold translateAt at h ⊢
    exact h
  | succ depth ih =>
    intro background place found h hro
    obtain ⟨p, hp⟩ | ⟨o, ho⟩ := page_or_gpt place.object
    · rwa [translateAt_page hp] at h ⊢
    · by_cases hstop : (mem.gpt o).curL2v < stopL2v
      · rwa [translateAt_stop ho hstop] at h ⊢
      · rw [translateAt_gpt ho hstop] at h ⊢
        obtain ⟨place', hnext, h⟩ := of_bind_ok h
        obtain ⟨rest, htrail, -⟩ := translateAt_weaken depth h
        have hro' : readOnlyPath place'.trail = false := by
          rw [htrail, readOnlyPath_append, Bool.or_eq_false_iff] at hro
          exact hro.1
        rw [next_write hnext hro']
        exact ih h hro

theorem translateAt_write_readOnly (ho : place.object = .gpt o)
    (hstop : ¬(mem.gpt o).curL2v < stopL2v)
    (h : translateAt mem true stopL2v depth background place = .ok found) :
    readOnlyPath place.trail = false := by
  cases depth with
  | zero =>
    rw [translateAt_zero ho hstop] at h
    cases h
  | succ depth =>
    rw [translateAt_gpt ho hstop] at h
    obtain ⟨place', hnext, -⟩ := of_bind_ok h
    obtain ⟨rest, htrail, -⟩ := next_weaken hnext
    obtain ⟨_, _, hkey⟩ := of_bind_ok hnext
    have hro := (of_enterKey_ok hkey).2.2
    rw [Bool.and_true, htrail, readOnlyPath_append, Bool.or_eq_false_iff] at hro
    exact hro.1

end CapROS.MemoryTree
