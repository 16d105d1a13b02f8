import CapROS.Pipe.Stream

/-!
# The key that is kept

The server has room for the resume key of one client. In every run, proper or not, a client that waits is the one whose
key the server has kept, and so the two never wait for each other. A writer that sleeps when the reader destroys the
pipe without closing it is never woken.
-/

namespace CapROS.Pipe

open PipeState

variable {ps : PipeState} {c : Client} {s s' : System} {n : ℕ}

/-- What `sleep` is when a client sleeps. -/
def Client.asleep : Client → Sleep
  | .reader => .reader
  | .writer => .writer

/-- The resume key of the client that sleeps is kept. -/
structure Kept (ps : PipeState) : Prop where
  bounds : Bounds ps
  slot : ∀ c : Client, ps.sleep = c.asleep → ps.sleepSlot = some c

/-- A call of `c`: those sleep afterwards that slept, or called, and got no answer. -/
structure Answered (ps : PipeState) (c : Client) (out : Outcome) : Prop where
  kept : Kept out.ps
  asleep : ∀ d : Client, out.ps.sleep = d.asleep ↔
    (d = c ∨ ps.sleep = d.asleep) ∧ ∀ r ∈ out.replies, r.invKey ≠ some d
  destroyed : out.destroyed = true → out.ps.sleep = .none

theorem Bounds.awake (h : Bounds ps) : Bounds ps.awake := h.congr rfl rfl

theorem read_answered (h : Kept ps) (hc : ps.sleep ≠ .reader) : Answered ps .reader (ps.Pipe_Read .reader n) := by
  have hb := h.bounds
  have hslot := h.slot .writer
  have hr : Bounds ps.rewind := .rewind hb.le hb.room
  unfold Pipe_Read
  split_ifs with h₁ h₂ h₃ h₄ h₅
  · refine ⟨⟨hb.awake.transmit n, ?_⟩, ?_, by simp⟩ <;> rintro (_ | _) <;>
      simp_all [Client.asleep, PipeState.transmit, PipeState.rewind, PipeState.awake, PipeState.wake_writer]
  · refine ⟨⟨hb.transmit n, ?_⟩, ?_, by simp⟩ <;> rintro (_ | _) <;>
      simp_all [Client.asleep, PipeState.transmit, PipeState.rewind]
  · refine ⟨⟨.rewind hb.le hb.room, ?_⟩, ?_, by simp⟩ <;> rintro (_ | _) <;>
      simp_all [Client.asleep, PipeState.rewind, PipeState.awake, PipeState.wake_writer]
  · refine ⟨⟨hr, ?_⟩, ?_, by simp⟩ <;> rintro (_ | _) <;> simp_all [Client.asleep, PipeState.rewind]
  · refine ⟨⟨hr.congr rfl rfl, ?_⟩, ?_, fun he => by cases he⟩ <;> rintro (_ | _) <;>
      simp_all [Client.asleep, PipeState.return_to_writer, PipeState.rewind]
  · -- No writer sleeps: with an empty buffer `start` is 0.
    have hw : ps.sleep ≠ .writer := fun he => h₅ ⟨he, hb.rewound (not_not.1 h₁)⟩
    refine ⟨⟨hr.congr rfl rfl, ?_⟩, ?_, by simp⟩ <;> rintro (_ | _) <;>
      simp_all [Client.asleep, PipeState.rewind]

theorem write_answered (h : Kept ps) (hc : ps.sleep ≠ .writer) (hn : ps.stop + n ≤ PIPE_BUF_SZ) (w2 : ℕ) :
    Answered ps .writer (ps.Pipe_Write .writer w2 n) := by
  have hb : Bounds { ps with stop := ps.stop + n } := by
    obtain ⟨hle, -, hrew⟩ := h.bounds
    exact ⟨hle.trans (Nat.le_add_right _ _), hn, fun he => hrew (by dsimp only at he; omega)⟩
  have hslot := h.slot .reader
  unfold Pipe_Write
  dsimp only
  split_ifs with h₁ h₂ h₃
  · have hb' : Bounds { ps with stop := ps.stop + n, sleep := .writer, sleepSlot := some .writer, wrReqLen := w2 } :=
      hb.congr rfl rfl
    refine ⟨⟨hb'.transmit _, ?_⟩, ?_, fun he => by cases he⟩ <;> rintro (_ | _) <;>
      simp_all [Client.asleep, PipeState.return_to_reader, PipeState.transmit, PipeState.rewind]
  · refine ⟨⟨hb.congr rfl rfl, ?_⟩, ?_, by simp⟩ <;> rintro (_ | _) <;> simp_all [Client.asleep]
  · refine ⟨⟨hb.awake.transmit _, ?_⟩, ?_, by simp⟩ <;> rintro (_ | _) <;>
      simp_all [Client.asleep, PipeState.transmit, PipeState.rewind, PipeState.awake, PipeState.wake_reader]
  · refine ⟨⟨hb, ?_⟩, ?_, by simp⟩ <;> rintro (_ | _) <;> simp_all [Client.asleep]

theorem close_answered (h : Kept ps) (hc : ps.sleep ≠ c.asleep) : Answered ps c (ps.Pipe_Close c c) := by
  have hb := h.bounds
  have hw := h.slot .writer
  have hr := h.slot .reader
  cases c <;> unfold Pipe_Close <;> dsimp only <;> split_ifs with h₁
  · refine ⟨⟨hb.awake, ?_⟩, ?_, fun _ => rfl⟩ <;> rintro (_ | _) <;>
      simp_all [Client.asleep, PipeState.awake, PipeState.wake_writer]
  · have hnone : ps.sleep = .none := by cases hs : ps.sleep <;> simp_all [Client.asleep]
    refine ⟨⟨hb, ?_⟩, ?_, fun _ => hnone⟩ <;> rintro (_ | _) <;> simp_all [Client.asleep]
  · have hb' : Bounds ps.shut.awake := hb.congr rfl rfl
    refine ⟨⟨hb'.transmit _, ?_⟩, ?_, by simp⟩ <;> rintro (_ | _) <;>
      simp_all [Client.asleep, PipeState.transmit, PipeState.rewind, PipeState.shut, PipeState.awake,
        PipeState.wake_reader]
  · refine ⟨⟨hb.congr rfl rfl, ?_⟩, ?_, by simp⟩ <;> rintro (_ | _) <;>
      simp_all [Client.asleep, PipeState.shut]

/-! ## The system -/

/-- A client waits if and only if it sleeps. -/
structure Parked (s : System) : Prop where
  kept : Kept s.ps
  waiting : ∀ d : Client, s.place d = .waiting ↔ s.ps.sleep = d.asleep
  destroyed : s.destroyed = true → s.ps.sleep ≠ .reader

theorem receive_waiting (s : System) (r : Reply) : (s.receive r).ps = s.ps ∧ (s.receive r).destroyed = s.destroyed ∧
    ∀ d : Client, (s.receive r).place d = .waiting ↔ s.place d = .waiting ∧ r.invKey ≠ some d := by
  obtain ⟨invKey, code, w1, data⟩ := r
  unfold System.receive
  obtain - | - | - := invKey
  · simp
  all_goals
    dsimp only
    split <;> refine ⟨rfl, rfl, ?_⟩ <;> rintro (_ | _) <;> simp_all [System.place, Reader.receive]

theorem foldl_waiting (rs : List Reply) (s : System) : (rs.foldl System.receive s).ps = s.ps ∧
    (rs.foldl System.receive s).destroyed = s.destroyed ∧ ∀ d : Client, (rs.foldl System.receive s).place d = .waiting ↔
      s.place d = .waiting ∧ ∀ r ∈ rs, r.invKey ≠ some d := by
  induction rs generalizing s with
  | nil => simp
  | cons r rs ih =>
    obtain ⟨hps, hd, hw⟩ := receive_waiting s r
    obtain ⟨hps', hd', hw'⟩ := ih (s.receive r)
    refine ⟨hps'.trans hps, hd'.trans hd, fun d => ?_⟩
    rw [List.foldl_cons, hw', hw, List.forall_mem_cons, and_assoc]

theorem Parked.call (h : Parked s) {t : System} {code : Code} {w2 : ℕ} {string : List UInt8} (ht : t.ps = s.ps)
    (hother : ∀ d ≠ c, t.place d = s.place d)
    (hself : t.place c = .waiting ∨ ∃ r ∈ (serve t.ps c c code w2 string).replies, r.invKey = some c)
    (hans : Kept { t.ps with buf := Cells.write t.ps.buf t.ps.stop (string.take (PIPE_BUF_SZ - t.ps.stop)) } →
      Answered { t.ps with buf := Cells.write t.ps.buf t.ps.stop (string.take (PIPE_BUF_SZ - t.ps.stop)) } c
        (serve t.ps c c code w2 string)) :
    Parked (t.call c code w2 string) := by
  obtain ⟨hkept, hasleep, hdestroyed⟩ := hans ⟨ht ▸ h.kept.bounds.congr rfl rfl, ht ▸ h.kept.slot⟩
  obtain ⟨hps, hd, hw⟩ := foldl_waiting (serve t.ps c c code w2 string).replies
    { t with ps := (serve t.ps c c code w2 string).ps, destroyed := (serve t.ps c c code w2 string).destroyed }
  refine ⟨hps ▸ hkept, fun d => ?_, fun he => ?_⟩
  · rw [System.call, hw, hps, hasleep]
    refine and_congr_left fun hnone => ?_
    by_cases hdc : d = c
    · subst hdc
      refine iff_of_true (hself.resolve_right ?_) (.inl rfl)
      rintro ⟨r, hr, he⟩
      exact hnone r hr he
    · rw [or_iff_right hdc]
      change t.place d = .waiting ↔ t.ps.sleep = d.asleep
      rw [hother d hdc, ht]
      exact h.waiting d
  · rw [System.call, hps, hdestroyed (hd.symm.trans he)]
    exact by simp

theorem Parked.move (h : Parked s) (hps : s'.ps = s.ps) (hd : s'.destroyed = s.destroyed)
    (hw : ∀ d : Client, s'.place d = .waiting ↔ s.place d = .waiting) : Parked s' :=
  ⟨hps ▸ h.kept, fun d => by rw [hw, h.waiting, hps], fun he => hps ▸ h.destroyed (hd ▸ he)⟩

theorem Parked.step (h : Parked s) (a : Action) (hrun : s.exec a = some s') : Parked s' := by
  have hsleep : ∀ d : Client, s.place d ≠ .waiting → s.ps.sleep ≠ d.asleep := fun d => mt (h.waiting d).2
  cases a with
  | write buf | read len buf =>
    obtain ⟨⟨hplace, -⟩, hrun⟩ := Option.ite_none_right_eq_some.1 hrun
    obtain rfl := Option.some.inj hrun
    refine h.move rfl rfl ?_
    rintro (_ | _) <;> simp [System.place, hplace]
  | writeReply | readReply =>
    simp only [System.exec] at hrun
    split at hrun
    · rename_i hplace
      split at hrun <;> obtain rfl := Option.some.inj hrun <;> refine h.move rfl rfl ?_ <;> rintro (_ | _) <;>
        simp [System.place, hplace]
    · cases hrun
  | serveWrite =>
    obtain ⟨⟨hplace, -⟩, hrun⟩ := Option.ite_none_right_eq_some.1 hrun
    obtain rfl := Option.some.inj hrun
    have hroom := h.kept.bounds.room
    refine h.call rfl ?_ (.inl rfl) fun hk => write_answered hk ?_ ?_ _
    · rintro (_ | _) hd <;> first | rfl | exact absurd rfl hd
    · exact hsleep .writer (by simp [System.place, hplace])
    · rw [List.length_take]
      dsimp only
      omega
  | serveRead =>
    obtain ⟨⟨hplace, -⟩, hrun⟩ := Option.ite_none_right_eq_some.1 hrun
    obtain rfl := Option.some.inj hrun
    refine h.call rfl ?_ (.inl rfl) fun hk => read_answered hk ?_
    · rintro (_ | _) hd <;> first | rfl | exact absurd rfl hd
    · exact hsleep .reader (by simp [System.place, hplace])
  | close =>
    obtain ⟨⟨hplace, -⟩, hrun⟩ := Option.ite_none_right_eq_some.1 hrun
    obtain rfl := Option.some.inj hrun
    refine h.call rfl ?_ (.inr ⟨⟨some .writer, .ok, 0, []⟩, ?_, rfl⟩) fun hk => close_answered hk ?_
    · rintro (_ | _) hd <;> first | rfl | exact absurd rfl hd
    · simp only [serve, ProcessRequest, Pipe_Close]
      split <;> simp
    · exact hsleep .writer (by simp [System.place, hplace])
  | readerClose =>
    obtain ⟨⟨hplace, -⟩, hrun⟩ := Option.ite_none_right_eq_some.1 hrun
    obtain rfl := Option.some.inj hrun
    refine h.call rfl ?_ (.inr ⟨⟨some .reader, .ok, 0, []⟩, ?_, rfl⟩) fun hk => close_answered hk ?_
    · rintro (_ | _) hd <;> first | rfl | exact absurd rfl hd
    · simp only [serve, ProcessRequest, Pipe_Close]
      split <;> simp
    · exact hsleep .reader (by simp [System.place, hplace])
  | request c code w2 string =>
    obtain ⟨⟨hplace, -⟩, -⟩ := Option.ite_none_right_eq_some.1 hrun
    obtain ⟨hd, rfl⟩ := System.exec_request hrun
    refine ⟨⟨h.kept.bounds.congr rfl rfl, h.kept.slot⟩, fun d => h.waiting d, fun he => ?_⟩
    obtain ⟨rfl, -⟩ := of_decide_eq_true he
    exact hsleep .reader (by simp [hplace])

theorem System.Reach.parked (h : System.Reach (fun _ _ => True) s) : Parked s := by
  induction h with
  | init buf =>
    refine ⟨⟨(Inv.init buf).bounds, ?_⟩, ?_, fun he => by cases he⟩ <;> rintro (_ | _) <;>
      simp [System.init, InitPipe, System.place, Client.asleep]
  | step a _ _ hrun ih => exact ih.step a hrun

/-! ## The destruction -/

/-- The reader that closes wakes the writer. -/
theorem Parked.readerClose (h : Parked s) (hrun : s.exec .readerClose = some s') : s'.writer.place ≠ .waiting := by
  obtain ⟨⟨hplace, hd⟩, hcall⟩ := Option.ite_none_right_eq_some.1 hrun
  have hr : s.ps.sleep ≠ .reader := fun he => by simpa [System.place, hplace] using (h.waiting .reader).2 he
  have hans : Answered s.ps .reader (s.ps.Pipe_Close .reader .reader) := close_answered h.kept hr
  have hdestroyed : (s.ps.Pipe_Close .reader .reader).destroyed = true := by
    unfold Pipe_Close
    dsimp only
    split <;> rfl
  have hps : s'.ps = (s.ps.Pipe_Close .reader .reader).ps := by
    obtain rfl := Option.some.inj hcall
    rw [System.call, (foldl_waiting _ _).1, serve_nil]
    rfl
  intro he
  have hsleep := ((h.step .readerClose hrun).waiting .writer).1 he
  rw [hps, hans.destroyed hdestroyed] at hsleep
  cases hsleep

theorem call_destroyed (t : System) (code : Code) (w2 : ℕ) (string : List UInt8) :
    (t.call c code w2 string).destroyed = (serve t.ps c c code w2 string).destroyed := (foldl_waiting _ _).2.1

theorem write_destroyed (ps : PipeState) (n w2 : ℕ) : (ps.Pipe_Write c w2 n).destroyed = false := by
  unfold Pipe_Write
  dsimp only
  split_ifs <;> rfl

theorem read_destroyed (ps : PipeState) : (ps.Pipe_Read c n).destroyed = false := by
  unfold Pipe_Read
  split_ifs <;> rfl

/-- The pipe is destroyed by a reader that closes, and then the writer has been woken, or by one that destroys it, and
then nothing happens to the writer. -/
theorem Parked.destruction (h : Parked s) {a : Action} (hrun : s.exec a = some s') (hbefore : s.destroyed = false)
    (hafter : s'.destroyed = true) : (a = .readerClose ∧ s'.writer.place ≠ .waiting) ∨
      ((∃ w2 string, a = .request .reader .key_destroy w2 string) ∧ s'.writer = s.writer) := by
  cases a with
  | readerClose => exact .inl ⟨rfl, h.readerClose hrun⟩
  | request c code w2 string =>
    obtain ⟨-, rfl⟩ := System.exec_request hrun
    obtain ⟨rfl, rfl⟩ := of_decide_eq_true hafter
    exact .inr ⟨⟨w2, string, rfl⟩, rfl⟩
  | serveWrite =>
    obtain rfl := Option.some.inj (Option.ite_none_right_eq_some.1 hrun).2
    rw [call_destroyed] at hafter
    exact absurd hafter (by simp [serve, ProcessRequest, write_destroyed])
  | serveRead =>
    obtain rfl := Option.some.inj (Option.ite_none_right_eq_some.1 hrun).2
    rw [call_destroyed] at hafter
    exact absurd hafter (by simp [serve, ProcessRequest, read_destroyed])
  | close =>
    obtain rfl := Option.some.inj (Option.ite_none_right_eq_some.1 hrun).2
    rw [call_destroyed, serve_nil] at hafter
    simp only [ProcessRequest, Pipe_Close] at hafter
    split at hafter <;> cases hafter
  | write buf | read len buf =>
    obtain rfl := Option.some.inj (Option.ite_none_right_eq_some.1 hrun).2
    exact absurd (hafter.symm.trans hbefore) (by simp)
  | writeReply | readReply =>
    simp only [System.exec] at hrun
    split at hrun
    · split at hrun <;> obtain rfl := Option.some.inj hrun <;> exact absurd (hafter.symm.trans hbefore) (by simp)
    · cases hrun

/-- A pipe that has been destroyed answers nobody. -/
theorem exec_destroyed (hd : s.destroyed = true) (hw : s.writer.place = .waiting) {a : Action}
    (hrun : s.exec a = some s') : s'.destroyed = true ∧ s'.writer.place = .waiting := by
  cases a with
  | read len buf =>
    obtain rfl := Option.some.inj (Option.ite_none_right_eq_some.1 hrun).2
    exact ⟨hd, hw⟩
  | readReply =>
    simp only [System.exec] at hrun
    split at hrun
    · split at hrun <;> obtain rfl := Option.some.inj hrun <;> exact ⟨hd, hw⟩
    · cases hrun
  | _ => simp [System.exec, hd, hw] at hrun

/-- In every run, a client that waits is the one whose resume key is kept, and they never wait for each other. No reader
waits for a pipe that has been destroyed. A writer waits for it if it slept when the reader destroyed the pipe without
closing it, and then for ever. -/
theorem waiting_is_kept (h : System.Reach (fun _ _ => True) s) :
    (s.writer.place = .waiting → s.ps.sleep = .writer ∧ s.ps.sleepSlot = some .writer) ∧
    (s.reader.place = .waiting → s.ps.sleep = .reader ∧ s.ps.sleepSlot = some .reader) ∧
    (s.writer.place = .waiting → s.reader.place ≠ .waiting) ∧
    (s.destroyed = true → s.reader.place ≠ .waiting) ∧
    ∀ (a : Action) (s' : System), s.exec a = some s' →
      (s.destroyed = false → s'.destroyed = true → (a = .readerClose ∧ s'.writer.place ≠ .waiting) ∨
        ((∃ w2 string, a = .request .reader .key_destroy w2 string) ∧
          (s'.writer.place = .waiting ↔ s.writer.place = .waiting))) ∧
      (s.destroyed = true → s.writer.place = .waiting → s'.destroyed = true ∧ s'.writer.place = .waiting) := by
  obtain ⟨⟨-, hslot⟩, hwaiting, hdestroyed⟩ := h.parked
  have hw := hwaiting .writer
  have hr := hwaiting .reader
  refine ⟨fun he => ⟨hw.1 he, hslot .writer (hw.1 he)⟩, fun he => ⟨hr.1 he, hslot .reader (hr.1 he)⟩,
    fun he he' => (by cases (hw.1 he).symm.trans (hr.1 he')), fun hd he => hdestroyed hd (hr.1 he),
    fun a s' hrun => ⟨fun hd hd' => ?_, fun hd he => exec_destroyed hd he hrun⟩⟩
  obtain hclosed | ⟨ha, hwriter⟩ := h.parked.destruction hrun hd hd'
  · exact .inl hclosed
  · exact .inr ⟨ha, by rw [hwriter]⟩

/-- The writer has filled the buffer, and sleeps. -/
theorem writer_sleeps : ∃ s : System, System.Reach (fun _ _ => True) s ∧ s.writer.place = .waiting ∧
    s.reader.place = .idle ∧ s.destroyed = false := by
  obtain ⟨buf, hbuf⟩ : ∃ buf : List UInt8, buf.length = PIPE_BUF_SZ :=
    ⟨List.replicate PIPE_BUF_SZ 7, List.length_replicate⟩
  have hwrite := System.Reach.step (.write buf) (@System.Reach.init (fun _ _ => True) fun _ => 0) trivial
    (if_pos ⟨rfl, rfl, by rw [hbuf]; decide⟩)
  refine ⟨_, hwrite.step .serveWrite trivial rfl, ?_⟩
  simp only [System.call, serve_write _ _ _ rfl]
  simp [System.init, InitPipe, PipeState.accept, Writer.string, rqLen, hbuf]

/-- The reader destroys the pipe, and the writer sleeps for ever. -/
theorem waiting_is_kept_destroyed : ∃ s : System, s.destroyed = true ∧ s.ps.sleepSlot = some .writer ∧
    ∀ a s', s.exec a = some s' → s'.writer.place = .waiting := by
  obtain ⟨s, hreach, hwaiting, hidle, hd⟩ := writer_sleeps
  obtain ⟨s', hs'⟩ : ∃ s', s.exec (.request .reader .key_destroy 0 []) = some s' :=
    ⟨_, if_pos ⟨hidle, hd, by decide⟩⟩
  have hreach' := hreach.step _ trivial hs'
  obtain ⟨-, rfl⟩ := System.exec_request hs'
  exact ⟨_, rfl, ((waiting_is_kept hreach').1 hwaiting).2, fun a s'' hrun =>
    (((waiting_is_kept hreach').2.2.2.2 a s'' hrun).2 rfl hwaiting).2⟩

end CapROS.Pipe
