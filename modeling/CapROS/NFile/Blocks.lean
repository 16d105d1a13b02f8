import CapROS.NFile.Shape

/-!
# Blocks move from one place to another
-/

namespace CapROS.NFile

open Cells Bytes
open Function (update update_self update_of_ne)

variable {ss ss' : Server} {g g' : Ghost} {b pg i j k : ℕ} {wantZero : Bool} {mem' : ℕ → UInt8}
  {place place' : Place}

theorem own_update_iff {own : ℕ → Option Place} (hne : place ≠ place') (hold : own pg ≠ some place') :
    update own pg (some place) b = some place' ↔ own b = some place' := by
  by_cases hb : b = pg
  · subst hb
    rw [update_self]
    exact iff_of_false (fun h => hne (Option.some.inj h)) hold
  · rw [update_of_ne hb]

/-- The blocks that can be allocated. -/
def Ghost.room (g : Ghost) (ss : Server) : ℕ := g.free.length + (2 * ss.arch.storage - ss.top_addr) / BLOCK_SIZE

/-- A block has been allocated. -/
def Ghost.lose (g : Ghost) (pg : ℕ) : Ghost :=
  { g with own := update g.own pg (some .lost), free := g.free.erase pg }

/-- A block has been freed. -/
def Ghost.release (g : Ghost) (b : ℕ) : Ghost :=
  { g with own := update g.own b (some .free), free := b :: g.free }

/-- What `AllocBlock` does. -/
structure Allocated (ss : Server) (g : Ghost) (wantZero : Bool) (pg : ℕ) (ss' : Server) : Prop where
  shape : Shape ss' (g.lose pg)
  was : g.own pg = none ∨ g.own pg = some .free
  zero : wantZero = true → ∀ i, pg ≤ i → i < pg + BLOCK_SIZE → ss'.mem i = 0
  same : ∀ i, i < pg ∨ pg + BLOCK_SIZE ≤ i → ss'.mem i = ss.mem i
  room : (g.lose pg).room ss' + 1 = g.room ss
  arch : ss'.arch = ss.arch
  first_free_inode : ss'.first_free_inode = ss.first_free_inode
  nxt_uuid : ss'.nxt_uuid = ss.nxt_uuid

namespace Shape

theorem reown (h : Shape ss g) (hold : g.own pg = none ∨ g.own pg = some .free ∨ g.own pg = some .lost)
    (hnew : place = .free ∨ place = .lost) :
    (∀ b, update g.own pg (some place) b = some .buffer ↔ g.own b = some .buffer) ∧
      (∀ b f j, update g.own pg (some place) b = some (.node f j) ↔ b ≠ 0 ∧ (g.tree f).node j = b) ∧
      ∀ b f k, update g.own pg (some place) b = some (.leaf f k) ↔ b ≠ 0 ∧ (g.tree f).leaf k = b := by
  have hother : ∀ place', place' ≠ .free → place' ≠ .lost → place ≠ place' ∧ g.own pg ≠ some place' := by
    intro place' hfree hlost
    constructor
    · rintro rfl
      obtain rfl | rfl := hnew
      · exact hfree rfl
      · exact hlost rfl
    · intro heq
      rw [heq] at hold
      obtain hold | hold | hold := hold
      · cases hold
      · exact hfree (Option.some.inj hold)
      · exact hlost (Option.some.inj hold)
  have hiff : ∀ place' b, place' ≠ .free → place' ≠ .lost →
      (update g.own pg (some place) b = some place' ↔ g.own b = some place') :=
    fun place' b hfree hlost => own_update_iff (hother place' hfree hlost).1 (hother place' hfree hlost).2
  exact ⟨fun b => hiff _ b (by simp) (by simp), fun b f j => (hiff _ b (by simp) (by simp)).trans (h.own_node b f j),
    fun b f k => (hiff _ b (by simp) (by simp)).trans (h.own_leaf b f k)⟩

theorem alloc (h : Shape ss g) (wantZero : Bool) :
    (∃ pg ss', AllocBlock wantZero ss = .ok pg ss' ∧ Allocated ss g wantZero pg ss') ∨
      (∃ ss', AllocBlock wantZero ss = .ok (2 * ss.arch.storage) ss' ∧ ss'.arch = ss.arch) ∧ g.room ss = 0 := by
  have hlinked := h.linked
  by_cases hfree : ss.first_free_block = 0
  · have hnil : g.free = [] := by
      cases hl : g.free with
      | nil => rfl
      | cons b l =>
        rw [hl] at hlinked
        exact absurd (hlinked.1.symm.trans hfree) hlinked.2.1
    by_cases htop : ss.top_addr < 2 * ss.arch.storage
    · -- A new page.
      refine .inl ⟨_, _, AllocBlock_of_eq wantZero hfree, ?_⟩
      have hnone : g.own ss.top_addr = none := by
        by_contra hne
        exact lt_irrefl _ ((h.own_ne _).1 hne).2.1
      obtain ⟨hbuffer, hnode, hleaf⟩ := h.reown (.inl hnone) (.inr rfl)
      have hle : ss.top_addr + BLOCK_SIZE ≤ 2 * ss.arch.storage := by
        obtain hle | hle := block_apart h.top_dvd (Nat.dvd_mul_left_of_dvd (storage_dvd ss.arch) 2) htop.ne
        · exact hle
        · simp only [BLOCK_SIZE] at hle
          omega
      have hblock : ∀ b, b ≠ ss.top_addr →
          (IsBlock { ss with top_addr := ss.top_addr + BLOCK_SIZE } b ↔ IsBlock ss b) := by
        intro b hb
        refine and_congr_right fun _ => and_congr_left fun hdvd => ⟨fun hlt => ?_, fun hlt => ?_⟩
        · obtain hlt' | hlt' := block_apart hdvd h.top_dvd hb
          · simp only [BLOCK_SIZE] at hlt'
            omega
          · exact absurd hlt (not_lt.2 hlt')
        · exact Nat.lt_add_right _ hlt
      have hbufsz := h.le_top
      refine ⟨{ h with
          top_dvd := (Nat.dvd_add_right h.top_dvd).2 (Nat.dvd_refl _)
          top_le := hle
          le_top := Nat.le_add_right_of_le h.le_top
          fresh := fun i hi => h.fresh i ((Nat.le_add_right _ _).trans hi)
          own_ne := fun b => ?_
          own_buffer := fun b => ?_
          own_free := fun b => ?_
          own_node := hnode
          own_leaf := hleaf
          linked := ?_
          nodup := h.nodup.erase _ }, .inl hnone, fun _ i hl hr => h.fresh i hl, fun i _ => rfl, ?_, rfl, rfl, rfl⟩
      · by_cases hb : b = ss.top_addr
        · subst hb
          exact iff_of_true (by simp [Ghost.lose]) ⟨(Nat.le_add_right _ _).trans hbufsz,
            Nat.lt_add_of_pos_right (by decide), h.top_dvd⟩
        · simp only [Ghost.lose]
          rw [update_of_ne hb, hblock b hb, h.own_ne]
      · refine (hbuffer b).trans ((h.own_buffer b).trans (and_congr_left fun hlt => ?_))
        exact (hblock b (hlt.trans_le h.le_top).ne).symm
      · rw [Ghost.lose, hnil]
        refine (own_update_iff (by simp) (by simp [hnone])).trans ((h.own_free b).trans ?_)
        rw [hnil]
        rfl
      · rw [Ghost.lose, hnil]
        exact hfree
      · simp only [Ghost.room, Ghost.lose, hnil, BLOCK_SIZE] at hle ⊢
        simp only [List.erase_nil, List.length_nil]
        omega
    · have htop' : ss.top_addr = 2 * ss.arch.storage := le_antisymm h.top_le (not_lt.1 htop)
      have halloc := AllocBlock_of_eq wantZero hfree
      rw [htop'] at halloc
      refine .inr ⟨⟨_, halloc, rfl⟩, ?_⟩
      rw [Ghost.room, hnil, htop', Nat.sub_self]
      rfl
  · -- The first block on the free list.
    refine .inl ⟨_, _, AllocBlock_of_ne wantZero hfree, ?_⟩
    obtain ⟨l, hl⟩ : ∃ l, g.free = ss.first_free_block :: l := by
      cases hl : g.free with
      | nil =>
        rw [hl] at hlinked
        exact absurd hlinked hfree
      | cons b l =>
        rw [hl] at hlinked
        exact ⟨l, by rw [hlinked.1]⟩
    generalize hpg : ss.first_free_block = pg at *
    have hown : g.own pg = some .free := (h.own_free pg).2 (by rw [hl]; exact List.mem_cons_self)
    obtain ⟨hbuffer, hnode, hleaf⟩ := h.reown (.inr (.inl hown)) (.inr rfl)
    have hnodup := h.nodup
    rw [hl] at hlinked hnodup
    obtain ⟨hnot, hnodup⟩ := List.nodup_cons.1 hnodup
    have herase : g.free.erase pg = l := by rw [hl, List.erase_cons_head]
    -- First the ghost, then the memory.
    have hghost : Shape { ss with first_free_block := ptr ss.mem pg 0 } (g.lose pg) := by
      refine { h with
        own_ne := fun b => ?_
        own_buffer := fun b => (hbuffer b).trans (h.own_buffer b)
        own_free := fun b => ?_
        own_node := hnode
        own_leaf := hleaf
        linked := ?_
        nodup := h.nodup.erase _ }
      · by_cases hb : b = pg
        · subst hb
          exact iff_of_true (by simp [Ghost.lose]) (h.isBlock hown)
        · simp only [Ghost.lose]
          rw [update_of_ne hb]
          exact h.own_ne b
      · simp only [Ghost.lose]
        rw [herase]
        by_cases hb : b = pg
        · subst hb
          exact iff_of_false (by simp) hnot
        · rw [update_of_ne hb, h.own_free, hl, List.mem_cons, or_iff_right hb]
      · simp only [Ghost.lose]
        rw [herase]
        exact hlinked.2.2
    have hlost : (g.lose pg).own pg = some .lost := update_self _ _ _
    have hroom : (g.lose pg).room ss + 1 = g.room ss := by
      simp only [Ghost.room, Ghost.lose]
      rw [herase, hl, List.length_cons]
      omega
    cases wantZero with
    | true =>
      have hsame : ∀ i, i < pg ∨ pg + BLOCK_SIZE ≤ i → zeroBlock ss.mem pg i = ss.mem i :=
        fun i hi => if_neg (by omega)
      exact ⟨hghost.frame_block hlost (by simp) (by simp) (by simp) hsame, .inr hown,
        fun _ i hl hr => zeroBlock_apply hl hr, hsame, hroom, rfl, rfl, rfl⟩
    | false => exact ⟨hghost, .inr hown, fun hw => (by cases hw), fun i _ => rfl, hroom, rfl, rfl, rfl⟩

theorem first_free_lt (h : Shape ss g) : ss.first_free_block < 2 ^ 32 := by
  have hlinked := h.linked
  cases hl : g.free with
  | nil =>
    rw [hl] at hlinked
    exact hlinked ▸ Nat.two_pow_pos 32
  | cons b l =>
    rw [hl] at hlinked
    exact hlinked.1 ▸ (h.block_pos ((h.own_free b).2 (by rw [hl]; exact List.mem_cons_self))).2

theorem freeBlock (h : Shape ss g) (hb : g.own b = some .lost) :
    ∃ ss', NFile.freeBlock b ss = .ok () ss' ∧ Shape ss' (g.release b) ∧ ss'.arch = ss.arch ∧
      ss'.nxt_uuid = ss.nxt_uuid ∧ ss'.first_free_inode = ss.first_free_inode ∧ ss'.top_addr = ss.top_addr ∧
      ∀ i, i < b ∨ b + BLOCK_SIZE ≤ i → ss'.mem i = ss.mem i := by
  have hsame : ∀ i, i < b ∨ b + BLOCK_SIZE ≤ i → setPtr ss.mem b 0 ss.first_free_block i = ss.mem i :=
    fun i hi => setField_of_ne (by simp only [BLOCK_SIZE] at hi; omega)
  refine ⟨_, rfl, ?_, rfl, rfl, rfl, rfl, hsame⟩
  have h' := h.frame_block hb (by simp) (by simp) (by simp) hsame
  obtain ⟨hbuffer, hnode, hleaf⟩ := h.reown (.inr (.inr hb)) (.inl rfl)
  have hnot : b ∉ g.free := fun hmem => by
    have hfree := (h.own_free b).2 hmem
    rw [hb] at hfree
    cases hfree
  have hne : b ≠ 0 := by
    have := h.block_pos hb
    omega
  refine { h' with
    own_ne := fun p => ?_
    own_buffer := fun p => (hbuffer p).trans (h.own_buffer p)
    own_free := fun p => ?_
    own_node := hnode
    own_leaf := hleaf
    linked := ⟨rfl, hne, ?_⟩
    nodup := List.nodup_cons.2 ⟨hnot, h.nodup⟩ }
  · by_cases hp : p = b
    · subst hp
      exact iff_of_true (by simp [Ghost.release]) (h.isBlock hb)
    · simp only [Ghost.release]
      rw [update_of_ne hp]
      exact h.own_ne p
  · simp only [Ghost.release]
    by_cases hp : p = b
    · subst hp
      exact iff_of_true (update_self _ _ _) List.mem_cons_self
    · rw [update_of_ne hp, h.own_free, List.mem_cons, or_iff_right hp]
  · rw [ptr_setPtr h.first_free_lt]
    exact h'.linked

end Shape

/-! ## Files are removed -/

/-- The places of a file become no place. -/
def Place.kill (f : Option ℕ) : Place → Place
  | .node f' j => if f' = f then .lost else .node f' j
  | .leaf f' k => if f' = f then .lost else .leaf f' k
  | place => place

/-- A file is not there any more. -/
def Ghost.kill (g : Ghost) (id : ℕ) : Ghost :=
  { g with
    tree := update g.tree (some id) Tree.empty
    own := fun b => (g.own b).map (Place.kill (some id))
    live := fun n => g.live n ∧ n ≠ id }

variable {f f' : Option ℕ}

theorem Ghost.tree_kill {id : ℕ} (hf : f ≠ some id) : (g.kill id).tree f = g.tree f :=
  update_of_ne hf _ _

theorem Place.kill_eq_buffer : place.kill f = .buffer ↔ place = .buffer := by
  cases place <;> simp [Place.kill] <;> split_ifs <;> simp

theorem Place.kill_eq_free : place.kill f = .free ↔ place = .free := by
  cases place <;> simp [Place.kill] <;> split_ifs <;> simp

theorem Place.kill_eq_lost :
    place.kill f = .lost ↔ place = .lost ∨ (∃ j, place = .node f j) ∨ ∃ k, place = .leaf f k := by
  cases place with
  | node f' j =>
    simp only [Place.kill]
    split_ifs with heq
    · subst heq
      exact iff_of_true rfl (.inr (.inl ⟨j, rfl⟩))
    · simp [heq]
  | leaf f' k =>
    simp only [Place.kill]
    split_ifs with heq
    · subst heq
      exact iff_of_true rfl (.inr (.inr ⟨k, rfl⟩))
    · simp [heq]
  | _ => simp [Place.kill]

theorem Place.kill_eq_node : place.kill f = .node f' j ↔ place = .node f' j ∧ f' ≠ f := by
  cases place with
  | node f'' j' =>
    simp only [Place.kill]
    split_ifs with heq
    · exact iff_of_false (by simp) fun h => h.2 (by obtain ⟨rfl, -⟩ := Place.node.inj h.1; exact heq)
    · refine (and_iff_left_of_imp fun h => ?_).symm
      obtain ⟨rfl, -⟩ := Place.node.inj h
      exact heq
  | leaf f'' k =>
    simp only [Place.kill]
    split_ifs <;> simp
  | _ => simp [Place.kill]

theorem Place.kill_eq_leaf : place.kill f = .leaf f' k ↔ place = .leaf f' k ∧ f' ≠ f := by
  cases place with
  | leaf f'' k' =>
    simp only [Place.kill]
    split_ifs with heq
    · exact iff_of_false (by simp) fun h => h.2 (by obtain ⟨rfl, -⟩ := Place.leaf.inj h.1; exact heq)
    · refine (and_iff_left_of_imp fun h => ?_).symm
      obtain ⟨rfl, -⟩ := Place.leaf.inj h
      exact heq
  | node f'' j =>
    simp only [Place.kill]
    split_ifs <;> simp
  | _ => simp [Place.kill]

namespace Shape

theorem kill (h : Shape ss g) (id : ℕ) : Shape ss (g.kill id) := by
  have hown : ∀ b place', (g.kill id).own b = some place' ↔
      ∃ place, g.own b = some place ∧ place.kill (some id) = place' := fun b place' => Option.map_eq_some_iff
  refine { h with
    own_ne := fun b => Option.map_eq_none_iff.not.trans (h.own_ne b)
    own_buffer := fun b => ?_
    own_free := fun b => ?_
    own_node := fun b f j => ?_
    own_leaf := fun b f k => ?_
    trees := fun f hf => ?_
    dead := fun f hf => ?_
    live_exists := fun n hn => h.live_exists n hn.1 }
  · rw [hown, ← h.own_buffer]
    simp only [Place.kill_eq_buffer, exists_eq_right]
  · rw [hown]
    simp only [Place.kill_eq_free, exists_eq_right]
    exact h.own_free b
  · rw [hown]
    simp only [Place.kill_eq_node]
    by_cases hf : f = some id
    · subst hf
      refine iff_of_false (fun ⟨_, _, _, hne⟩ => hne rfl) fun ⟨hb, hnode⟩ => hb ?_
      simp only [Ghost.kill, update_self] at hnode
      exact hnode.symm
    · simp only [Ghost.kill, update_of_ne hf, ← h.own_node]
      exact ⟨fun ⟨place, hplace, heq, _⟩ => heq ▸ hplace, fun hplace => ⟨_, hplace, rfl, hf⟩⟩
  · rw [hown]
    simp only [Place.kill_eq_leaf]
    by_cases hf : f = some id
    · subst hf
      refine iff_of_false (fun ⟨_, _, _, hne⟩ => hne rfl) fun ⟨hb, hleaf⟩ => hb ?_
      simp only [Ghost.kill, update_self] at hleaf
      exact hleaf.symm
    · simp only [Ghost.kill, update_of_ne hf, ← h.own_leaf]
      exact ⟨fun ⟨place, hplace, heq, _⟩ => heq ▸ hplace, fun hplace => ⟨_, hplace, rfl, hf⟩⟩
  · cases f with
    | none => exact h.trees none trivial
    | some n =>
      have hne : some n ≠ some id := fun heq => hf.2 (Option.some.inj heq)
      simp only [Ghost.kill, update_of_ne hne]
      exact h.trees (some n) hf.1
  · by_cases heq : f = some id
    · subst heq
      exact update_self _ _ _
    · simp only [Ghost.kill, update_of_ne heq]
      refine h.dead f fun hlive => hf ?_
      cases f with
      | none => trivial
      | some n => exact ⟨hlive, fun hn => heq (hn ▸ rfl)⟩

end Shape

/-! ## Trees get blocks -/

variable {p : ℕ} {mem : ℕ → UInt8} {f : Option ℕ} {t : Tree} {l : List ℕ}

theorem linkedIno_inode {inode inode' : ℕ → ℕ} (h : LinkedIno mem inode p l) (heq : ∀ n ∈ l, inode' n = inode n) :
    LinkedIno mem inode' p l := by
  induction l generalizing p with
  | nil => exact h
  | cons n l ih =>
    obtain ⟨rfl, hl⟩ := h
    have hn := heq n List.mem_cons_self
    refine ⟨hn.symm, ?_⟩
    rw [hn]
    exact ih hl fun m hm => heq m (List.mem_cons_of_mem n hm)

/-- The table with the pointers to the data of a file. -/
def Ghost.leafTable (g : Ghost) (f : Option ℕ) : ℕ :=
  if (g.tree f).layers = 0 then indir (g.inode f) else (g.tree f).node 0

/-- A block becomes the block `k` of the data of a file. -/
def Ghost.link (g : Ghost) (f : Option ℕ) (k pg : ℕ) : Ghost :=
  { g with
    tree := update g.tree f { g.tree f with leaf := update (g.tree f).leaf k pg }
    own := update g.own pg (some (.leaf f k)) }

/-- A block becomes the block of pointers on the highest layer of a file. -/
def Ghost.grow (g : Ghost) (f : Option ℕ) (pg : ℕ) : Ghost :=
  { g with
    tree := update g.tree f
      ⟨(g.tree f).layers + 1, update (g.tree f).node (g.tree f).layers pg, (g.tree f).leaf⟩
    own := update g.own pg (some (.node f (g.tree f).layers)) }

/-- Only the pointers of the file, and blocks in no place, are written. -/
structure WritesTree (mem : ℕ → UInt8) (g : Ghost) (f : Option ℕ) (mem' : ℕ → UInt8) : Prop where
  same : ∀ i, (∀ b, g.own b = some .lost ∨ (∃ j, g.own b = some (.node f j)) → i < b ∨ b + BLOCK_SIZE ≤ i) →
    i < g.inode f + 16 ∨ g.inode f + 64 ≤ i → mem' i = mem i
  number : Same mem mem' (g.inode f + 18) (g.inode f + 20)

namespace Shape

variable {n : ℕ}

/-- The address of an existing inode does not change when the first blocks of the root file do not. -/
theorem inode_eq {leaf : ℕ → ℕ} (hleaf : ∀ k < g.tables, leaf k = (g.tree none).leaf k) (hn : g.Exists n) :
    leaf (n / inodesPerBlock) + 64 * (n % inodesPerBlock) = g.inode (some n) := by
  have hlt : n / inodesPerBlock < g.tables := Nat.div_lt_of_lt_mul (by rw [Nat.mul_comm]; exact hn)
  rw [hleaf _ hlt]
  rfl

theorem ino_block_apart (h : Shape ss g) (hn : g.Exists n) (hb : g.own b = some place)
    (hleaf : ∀ k, place ≠ .leaf none k) :
    g.inode (some n) + 64 ≤ b ∨ b + BLOCK_SIZE ≤ g.inode (some n) := by
  obtain ⟨p, hp, hpl, hpr⟩ := h.ino_bounds hn
  have hpb : p ≠ b := by
    rintro rfl
    rw [hp] at hb
    exact hleaf _ (Option.some.inj hb).symm
  have := h.apart hp hb hpb
  omega

theorem inode_apart (h : Shape ss g) (hf : g.Live f) (hb : g.own b = some place) (hleaf : ∀ k, place ≠ .leaf none k) :
    g.inode f + 64 ≤ b ∨ b + BLOCK_SIZE ≤ g.inode f := by
  cases f with
  | none =>
    have hblock := (h.isBlock hb).1
    have hroot := root_lt ss.arch
    have hino : g.inode none = root := rfl
    omega
  | some n => exact h.ino_block_apart (h.live_exists n hf).1 hb hleaf

theorem inode_lt_top (h : Shape ss g) (hf : g.Live f) : g.inode f + 64 ≤ ss.top_addr := by
  cases f with
  | none =>
    have hroot := root_lt ss.arch
    have hle := h.le_top
    have hino : g.inode none = root := rfl
    omega
  | some n =>
    obtain ⟨b, hb, -, hbr⟩ := h.ino_bounds (h.live_exists n hf).1
    exact hbr.trans ((h.isBlock hb).lt h.top_dvd)

end Shape

namespace WritesTree

theorem block (h : Shape ss g) (hf : g.Live f) (hwrites : WritesTree mem g f mem') (hp : g.own p = some place)
    (hlost : place ≠ .lost) (hnode : ∀ j, place ≠ .node f j) (hleaf : ∀ k, place ≠ .leaf none k) :
    Same mem mem' p (p + BLOCK_SIZE) := by
  intro i hl hr
  refine hwrites.same i (fun b hb => ?_) ?_
  · have hbp : p ≠ b := by
      rintro rfl
      rw [hp] at hb
      obtain hb | ⟨j, hb⟩ := hb
      · exact hlost (Option.some.inj hb)
      · exact hnode j (Option.some.inj hb)
    obtain hb | ⟨j, hb⟩ := hb
    · have := h.apart hp hb hbp
      omega
    · have := h.apart hp hb hbp
      omega
  · have := h.inode_apart hf hp hleaf
    omega

theorem out (hi : ∀ b place, g.own b = some place → (∀ k, place ≠ .leaf none k) →
    i < b ∨ b + BLOCK_SIZE ≤ i) (b : ℕ) (hb : g.own b = some .lost ∨ ∃ j, g.own b = some (.node f j)) :
    i < b ∨ b + BLOCK_SIZE ≤ i := by
  obtain hb | ⟨j, hb⟩ := hb
  · exact hi b _ hb (by simp)
  · exact hi b _ hb (by simp)

theorem inode (h : Shape ss g) (hf : g.Live f) (hwrites : WritesTree mem g f mem') {n : ℕ} (hn : g.Exists n)
    (hne : f ≠ some n) : Same mem mem' (g.inode (some n)) (g.inode (some n) + 64) := by
  intro i hl hr
  refine hwrites.same i (out fun b place hb hleaf => ?_) ?_
  · have := h.ino_block_apart hn hb hleaf
    omega
  · cases f with
    | none =>
      obtain ⟨p, hp, hpl, -⟩ := h.ino_bounds hn
      have hblock := (h.isBlock hp).1
      have hroot := Shape.root_lt ss.arch
      have hino : g.inode none = root := rfl
      omega
    | some m =>
      have := h.ino_apart hn (h.live_exists m hf).1 fun heq => hne (heq ▸ rfl)
      omega

theorem self (h : Shape ss g) (hf : g.Live f) (hwrites : WritesTree mem g f mem') :
    Same mem mem' (g.inode f) (g.inode f + 16) := by
  intro i hl hr
  refine hwrites.same i (out fun b place hb hleaf => ?_) (by omega)
  have := h.inode_apart hf hb hleaf
  omega

theorem root (h : Shape ss g) (hf : g.Live f) (hwrites : WritesTree mem g f mem') (hne : f ≠ none) :
    Same mem mem' root (root + 64) := by
  have hroot := Shape.root_lt ss.arch
  intro i hl hr
  refine hwrites.same i (out fun b place hb _ => ?_) ?_
  · have := (h.isBlock hb).1
    omega
  · cases f with
    | none => exact absurd rfl hne
    | some n =>
      obtain ⟨b, hb, hbl, -⟩ := h.ino_bounds (h.live_exists n hf).1
      have := (h.isBlock hb).1
      omega

end WritesTree

namespace Shape

theorem retree (h : Shape ss g) (hf : g.Live f) (hwrites : WritesTree ss.mem g f mem') {own' : ℕ → Option Place}
    (hne : ∀ b, own' b ≠ none ↔ g.own b ≠ none) (hbuffer : ∀ b, own' b = some .buffer ↔ g.own b = some .buffer)
    (hfree : ∀ b, own' b = some .free ↔ g.own b = some .free)
    (hnode : ∀ b f' j, own' b = some (.node f' j) ↔ b ≠ 0 ∧ (update g.tree f t f').node j = b)
    (hleaf : ∀ b f' k, own' b = some (.leaf f' k) ↔ b ≠ 0 ∧ (update g.tree f t f').leaf k = b)
    (htable : ∀ k < g.tables, (update g.tree f t none).leaf k = (g.tree none).leaf k)
    (ht : TreeAt mem' (g.inode f) t) :
    Shape { ss with mem := mem' } { g with tree := update g.tree f t, own := own' } := by
  have hnumber : ∀ n, g.Exists n → Same ss.mem mem' (g.inode (some n) + 18) (g.inode (some n) + 20) := by
    intro n hn
    by_cases heq : f = some n
    · exact heq ▸ hwrites.number
    · exact (hwrites.inode h hf hn heq).mono (by omega) (by omega)
  have hrootSz : Same ss.mem mem' NFile.root (NFile.root + 16) := by
    by_cases heq : f = none
    · subst heq
      exact hwrites.self h hf
    · exact (hwrites.root h hf heq).mono le_rfl (by omega)
  have hfreeIno : ∀ n ∈ g.freeIno, f ≠ some n := by
    rintro n hn rfl
    exact (h.live_exists n hf).2 hn
  have haddr : ∀ n, g.Exists n →
      Ghost.inode { g with tree := update g.tree f t, own := own' } (some n) = g.inode (some n) :=
    fun n hn => inode_eq htable hn
  refine { h with
    fresh := fun i hi => ?_
    own_ne := fun b => (hne b).trans (h.own_ne b)
    own_buffer := fun b => (hbuffer b).trans (h.own_buffer b)
    own_free := fun b => (hfree b).trans (h.own_free b)
    own_node := hnode
    own_leaf := hleaf
    linked := h.linked.congr fun b hb => (hwrites.block h hf ((h.own_free b).2 hb) (by simp) (by simp)
      (by simp)).mono le_rfl (by simp only [BLOCK_SIZE]; omega)
    trees := fun f' hf' => ?_
    dead := fun f' hf' => ?_
    table := fun k hk => by
      simp only
      rw [htable k hk]
      exact h.table k hk
    root_sz := (hrootSz.getField le_rfl (by omega)).trans h.root_sz
    ids := fun n hn => ?_
    linkedIno := ?_
    freeIno_zero := fun n hn k hk => ?_ }
  · have hi : ss.top_addr ≤ i := hi
    rw [← h.fresh i hi]
    have hinode := h.inode_lt_top hf
    refine hwrites.same i (WritesTree.out fun b place hb _ => ?_) (by omega)
    exact .inr (((h.isBlock hb).lt h.top_dvd).trans hi)
  · have haddr' : Ghost.inode { g with tree := update g.tree f t, own := own' } f' = g.inode f' := by
      cases f' with
      | none => rfl
      | some n => exact haddr n (h.live_exists n hf').1
    rw [haddr']
    by_cases heq : f' = f
    · subst heq
      simp only [update_self]
      exact ht
    · simp only [update_of_ne heq]
      refine (h.trees f' hf').congr ?_ fun j hj => hwrites.block h hf ((h.own_node _ f' j).2 ⟨hj, rfl⟩) (by simp)
        (fun j' heq' => heq (Place.node.inj heq').1) (by simp)
      cases f' with
      | none => exact (hwrites.root h hf (Ne.symm heq)).mono (Nat.le_add_right NFile.root 16) le_rfl
      | some n => exact (hwrites.inode h hf (h.live_exists n hf').1 (Ne.symm heq)).mono (by omega) le_rfl
  · have heq : f' ≠ f := by
      rintro rfl
      exact hf' hf
    simp only [update_of_ne heq]
    exact h.dead f' hf'
  · rw [haddr n hn]
    exact ((hnumber n hn).getField le_rfl le_rfl).trans (h.ids n hn)
  · refine linkedIno_inode (linkedIno_congr h.linkedIno fun n hn => ?_) fun n hn => haddr n (h.freeIno_exists n hn)
    exact hwrites.inode h hf (h.freeIno_exists n hn) (hfreeIno n hn)
  · rw [haddr n (h.freeIno_exists n hn), ← h.freeIno_zero n hn k hk]
    simp only [INO_NINDIR] at hk
    exact (hwrites.inode h hf (h.freeIno_exists n hn) (hfreeIno n hn)).ptr (by simp only [indir]; omega)
      (by simp only [indir]; omega)

theorem own_node_zero (h : Shape ss g) (hf : g.Live f) (hl : (g.tree f).layers ≠ 0) :
    g.own ((g.tree f).node 0) = some (.node f 0) :=
  (h.own_node _ _ _).2 ⟨((h.trees f hf).node_ne 0).2 (Nat.pos_of_ne_zero hl), rfl⟩

theorem lt_of_width {t : Tree} (hlt : k < t.width) : k < PtrsPerBlock ∧ (t.layers = 0 → k < INO_NINDIR) := by
  unfold Tree.width at hlt
  simp only [INO_NINDIR, PtrsPerBlock] at hlt ⊢
  split_ifs at hlt with hl
  · exact ⟨by omega, fun _ => hlt⟩
  · exact ⟨hlt, fun h => absurd h hl⟩

theorem link_writes (h : Shape ss g) (hf : g.Live f) (hlt : k < (g.tree f).width) :
    WritesTree ss.mem g f (setPtr ss.mem (g.leafTable f) k pg) := by
  obtain ⟨hk1024, hk11⟩ := lt_of_width hlt
  refine ⟨fun i hi hino => ?_, ?_⟩
  · unfold Ghost.leafTable
    refine setField_of_ne ?_
    split_ifs with hl
    · have := hk11 hl
      simp only [indir, INO_NINDIR] at this ⊢
      omega
    · have := hi _ (.inr ⟨0, h.own_node_zero hf hl⟩)
      simp only [PtrsPerBlock, BLOCK_SIZE] at hk1024 this
      omega
  · unfold Ghost.leafTable
    refine same_setField ?_
    split_ifs with hl
    · simp only [indir]
      omega
    · have := h.inode_apart hf (h.own_node_zero hf hl) (by simp)
      simp only [PtrsPerBlock, BLOCK_SIZE] at hk1024 this
      omega

theorem link (h : Shape ss g) (hf : g.Live f) (hpg : g.own pg = some .lost) (hk : (g.tree f).leaf k = 0)
    (hlt : k < (g.tree f).width) :
    Shape { ss with mem := setPtr ss.mem (g.leafTable f) k pg } (g.link f k pg) := by
  obtain ⟨hpos, hpglt⟩ := h.block_pos hpg
  have htree := h.trees f hf
  have hnode0 := h.own_node_zero hf
  obtain ⟨hk1024, -⟩ := lt_of_width hlt
  refine h.retree hf (h.link_writes hf hlt) (fun b => ?_) (fun b => own_update_iff (by simp) (by simp [hpg]))
    (fun b => own_update_iff (by simp) (by simp [hpg])) (fun b f' j => ?_) (fun b f' k' => ?_) (fun k' hk' => ?_) ?_
  · by_cases hb : b = pg
    · subst hb
      rw [update_self, hpg]
      simp
    · rw [update_of_ne hb]
  · rw [own_update_iff (by simp) (by simp [hpg]), h.own_node]
    by_cases hf' : f' = f
    · subst hf'
      rw [update_self]
    · rw [update_of_ne hf']
  · have hnot : ∀ f' k', (g.tree f').leaf k' ≠ pg := fun f' k' heq => by
      have hleaf := (h.own_leaf pg f' k').2 ⟨by omega, heq⟩
      rw [hpg] at hleaf
      cases hleaf
    have hleaf : (update g.tree f { g.tree f with leaf := update (g.tree f).leaf k pg } f').leaf k' =
        if f' = f ∧ k' = k then pg else (g.tree f').leaf k' := by
      by_cases hf' : f' = f
      · subst hf'
        rw [update_self]
        by_cases hkk : k' = k
        · subst hkk
          simp
        · simp [hkk]
      · rw [update_of_ne hf', if_neg fun heq => hf' heq.1]
    rw [hleaf]
    by_cases hb : b = pg
    · subst hb
      rw [update_self]
      split_ifs with heq
      · obtain ⟨rfl, rfl⟩ := heq
        exact iff_of_true rfl ⟨by omega, rfl⟩
      · refine iff_of_false (fun hplace => heq ?_) fun hboth => hnot _ _ hboth.2
        obtain ⟨rfl, rfl⟩ := Place.leaf.inj (Option.some.inj hplace)
        exact ⟨rfl, rfl⟩
    · rw [update_of_ne hb, h.own_leaf]
      split_ifs with heq
      · obtain ⟨rfl, rfl⟩ := heq
        rw [hk]
        exact iff_of_false (fun hboth => hboth.1 hboth.2.symm) fun hboth => hb hboth.2.symm
      · rfl
  · by_cases hnone : none = f
    · subst hnone
      have hne : k' ≠ k := fun heq => h.table k' hk' (heq ▸ hk)
      rw [update_self]
      exact update_of_ne hne _ _
    · rw [update_of_ne hnone]
  · obtain ⟨hlayers, hlayers_le, htop, htable, hnode_ne, hleaf_lt⟩ := htree
    unfold Ghost.leafTable
    have hptr {mem : ℕ → UInt8} {tbl k' : ℕ} (hold : ptr mem tbl k' = (g.tree f).leaf k') :
        ptr (setPtr mem tbl k pg) tbl k' = update (g.tree f).leaf k pg k' := by
      by_cases hkk : k' = k
      · rw [hkk, update_self, ptr_setPtr hpglt]
      · rw [update_of_ne hkk, ptr_setPtr_of_ne hkk]
        exact hold
    have hwidth (k' : ℕ) (hk' : update (g.tree f).leaf k pg k' ≠ 0) : k' < (g.tree f).width := by
      by_cases hkk : k' = k
      · exact hkk ▸ hlt
      · rw [update_of_ne hkk] at hk'
        exact hleaf_lt k' hk'
    by_cases hl : (g.tree f).layers = 0
    · rw [if_pos hl]
      refine ⟨?_, hlayers_le, fun k' hk' => ?_, fun j hj => ?_, hnode_ne, hwidth⟩
      · exact (getField_setField_of_disjoint (.inl (by simp only [indir]; omega))).trans hlayers
      · simp only [hl, Tree.entry]
        have hold := htop k' hk'
        simp only [hl, Tree.entry] at hold
        exact hptr hold
      · dsimp only at hj
        omega
    · rw [if_neg hl]
      have hinode := h.inode_apart hf (hnode0 hl) (by simp)
      have hregion : Same ss.mem (setPtr ss.mem ((g.tree f).node 0) k pg) (g.inode f) (g.inode f + 64) := by
        refine same_setField ?_
        simp only [PtrsPerBlock, BLOCK_SIZE] at hk1024 hinode
        omega
      obtain ⟨n, hn⟩ := Nat.exists_eq_succ_of_ne_zero hl
      refine ⟨?_, hlayers_le, fun k' hk' => ?_, fun j hj k' hk' => ?_, hnode_ne, hwidth⟩
      · exact (hregion.getField (by omega) (by omega)).trans hlayers
      · have hold := htop k' hk'
        simp only [hn, Tree.entry] at hold ⊢
        simp only [INO_NINDIR] at hk'
        exact (hregion.ptr (by simp only [indir]; omega) (by simp only [indir]; omega)).trans hold
      · have hold := htable j hj k' hk'
        cases j with
        | zero =>
          exact hptr hold
        | succ j =>
          simp only [Tree.entry] at hold ⊢
          rw [← hold]
          have hown := (h.own_node _ f (j + 1)).2 ⟨(hnode_ne _).2 hj, rfl⟩
          have hne : (g.tree f).node (j + 1) ≠ (g.tree f).node 0 := fun heq => by
            rw [heq, hnode0 hl] at hown
            cases hown
          have hapart := h.apart hown (hnode0 hl) hne
          simp only [PtrsPerBlock, BLOCK_SIZE] at hk1024 hk' hapart
          exact getField_setField_of_disjoint (by omega)

end Shape

end CapROS.NFile
