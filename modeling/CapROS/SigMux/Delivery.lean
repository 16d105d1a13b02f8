import CapROS.SigMux.Basic

/-!
# Delivery of signals

In the runs in which no Post finds a client that is marked as sleeping though it has been answered, each client is
delivered what it waits for. Otherwise the signals of such a Post are lost.

* `signals_proper`: the main result.
* `signals_lost`: the claim does not hold of all runs.
-/

namespace CapROS.SigMux

open Function (update update_self update_of_ne)

variable {h : Histories} {i : Fin NCLIENT} {c : Client} {kr : Option ResumeKey} {due w w1 p : Signals}
  {n call : ℕ} {x x' : System} {s : State}

/-! ## Sets of signals -/

theorem wake_inter : w &&& (p &&& ~~~(w &&& p)) = 0#32 := by
  rw [← BitVec.and_assoc, BitVec.and_not_self]
  rfl

theorem inter_union (hp : w &&& p = 0#32) (hw1 : w &&& w1 = 0#32) : w &&& (p ||| w1) = 0#32 := by
  rw [BitVec.and_or_distrib_left, hp, hw1, BitVec.or_zero]

theorem diff_zero : p &&& ~~~0#32 = p := by rw [BitVec.not_zero, BitVec.and_allOnes]

theorem inter_subset : (w &&& p) &&& w = w &&& p := by
  rw [BitVec.and_comm, ← BitVec.and_assoc, BitVec.and_self]

/-! ## A client -/

/-- What holds of the answers to a client after `n` calls. -/
structure AnswersInv (n : ℕ) (answers : List Answer) : Prop where
  once : (answers.map Answer.call).Nodup
  past : ∀ call ∈ answers.map Answer.call, call < n
  wanted : ∀ a ∈ answers, a.w1 ≠ 0#32 ∧ a.w1 &&& a.wanted = a.w1

/-- What holds of client `i` after `n` calls. It has not been given the signals `due` yet. -/
structure ClientInv (n : ℕ) (due : Signals) (i : Fin NCLIENT) (c : Client) (kr : Option ResumeKey) (h : History) :
    Prop where
  owed : c.pending ||| due = h.owed
  quiet : c.sleeping = true → c.wakeup &&& c.pending = 0#32
  waiting : ∀ call w, h.waiting = some (call, w) →
    c.sleeping = true ∧ kr = some ⟨some i, call⟩ ∧ c.wakeup = w ∧ call < n ∧ call ∉ h.answers.map Answer.call
  answers : AnswersInv n h.answers

theorem reply_of_waiting {h : History} (hwait : h.waiting = some (call, w)) :
    h.reply call w1 = ⟨none, h.owed &&& ~~~w1, ⟨call, w, w1⟩ :: h.answers⟩ := by
  unfold History.reply
  rw [hwait]
  exact if_pos rfl

variable {m : Message}

theorem invoke_of_ne {j : Fin NCLIENT} (hkey : m.invKey = some ⟨some i, call⟩) (hji : j ≠ i) :
    invoke h m j = h j := by
  unfold invoke
  rw [hkey]
  exact update_of_ne hji _ _

theorem invoke_self (hkey : m.invKey = some ⟨some i, call⟩) :
    invoke h m i = (h i).reply call m.w1 := by
  unfold invoke
  rw [hkey]
  exact update_self _ _ _

theorem AnswersInv.succ {answers : List Answer} (hinv : AnswersInv n answers) : AnswersInv (n + 1) answers :=
  ⟨hinv.once, fun call hcall => Nat.lt_succ_of_lt (hinv.past call hcall), hinv.wanted⟩

theorem ClientInv.succ {h : History} (hinv : ClientInv n due i c kr h) : ClientInv (n + 1) due i c kr h where
  owed := hinv.owed
  quiet := hinv.quiet
  waiting call w hwait := by
    obtain ⟨hsleep, hkr, hwakeup, hlt, hopen⟩ := hinv.waiting call w hwait
    exact ⟨hsleep, hkr, hwakeup, Nat.lt_succ_of_lt hlt, hopen⟩
  answers := hinv.answers.succ

theorem AnswersInv.reply {h : History} (hinv : AnswersInv n h.answers) (hlt : call < n)
    (hopen : call ∉ h.answers.map Answer.call) (hwait : h.waiting = some (call, c.wakeup))
    (hwake : c.wakeup &&& p ≠ 0#32) (howed : p = h.owed) (hpending : c.pending = p &&& ~~~(c.wakeup &&& p)) :
    ClientInv n 0#32 i c kr (h.reply call (c.wakeup &&& p)) := by
  rw [reply_of_waiting hwait]
  refine ⟨?_, fun _ => ?_, fun call w hsome => ?_, List.nodup_cons.2 ⟨hopen, hinv.once⟩,
    List.forall_mem_cons.2 ⟨hlt, hinv.past⟩, List.forall_mem_cons.2 ⟨⟨hwake, inter_subset⟩, hinv.wanted⟩⟩
  · rw [BitVec.or_zero, hpending, ← howed]
  · rw [hpending]
    exact wake_inter
  · exact absurd hsome.symm (Option.some_ne_none _)

/-- The histories when a Post has come to client `i`. -/
def Client.postTo (c : Client) (kr : Option ResumeKey) (w1 : Signals) (h : Histories) : Histories :=
  if c.shouldWake w1 = 0#32 then h else invoke h ⟨kr, .ok, c.shouldWake w1, none⟩

theorem ClientInv.post (hinv : ClientInv n w1 i c kr (h i))
    (hawake : c.sleeping = true → (h i).waiting = none → c.wakeup &&& w1 = 0#32) :
    ClientInv n 0#32 i (c.post w1) kr (c.postTo kr w1 h i) ∧ ∀ j, j ≠ i → c.postTo kr w1 h j = h j := by
  unfold Client.postTo
  by_cases hzero : c.shouldWake w1 = 0#32
  · have hpost : (c.post w1).pending = c.pending ||| w1 := by
      rw [Client.post, hzero]
      exact diff_zero
    rw [if_pos hzero]
    refine ⟨⟨?_, fun hsleep => ?_, hinv.waiting, hinv.answers⟩, fun j _ => rfl⟩
    · rw [hpost, BitVec.or_zero]
      exact hinv.owed
    · rw [hpost]
      rwa [Client.shouldWake, if_pos (show c.sleeping = true from hsleep)] at hzero
  · have hsleep : c.sleeping = true := by
      by_contra hnot
      exact hzero (if_neg hnot)
    have hshould : c.shouldWake w1 = c.wakeup &&& (c.pending ||| w1) := if_pos hsleep
    cases hwait : (h i).waiting with
    | none =>
      -- The client has been answered: a proper Post does not wake it again.
      exact (hzero (hshould.trans (inter_union (hinv.quiet hsleep) (hawake hsleep hwait)))).elim
    | some wait =>
      obtain ⟨call, w⟩ := wait
      obtain ⟨-, rfl, rfl, hlt, hopen⟩ := hinv.waiting call w hwait
      rw [if_neg hzero, invoke_self rfl]
      refine ⟨?_, fun j hji => invoke_of_ne rfl hji⟩
      rw [hshould] at hzero ⊢
      refine hinv.answers.reply (c := c.post w1) hlt hopen hwait hzero hinv.owed ?_
      rw [Client.post, hshould]

/-! ## The multiplexor -/

/-- The invariant of the multiplexor after `n` calls. -/
def Inv (n : ℕ) (s : State) (h : Histories) : Prop := ∀ i, ClientInv n 0#32 i (s.client i) (s.krClient i) (h i)

theorem post_inv {clients : List (Fin NCLIENT)} (hnodup : clients.Nodup)
    (hinv : ∀ i, ClientInv n (if i ∈ clients then w1 else 0#32) i (s.client i) (s.krClient i) (h i))
    (hawake : ∀ i ∈ clients, (s.client i).sleeping = true → (h i).waiting = none →
      (s.client i).wakeup &&& w1 = 0#32) :
    Inv n (post w1 clients s).1 ((post w1 clients s).2.foldl invoke h) := by
  induction clients generalizing s h with
  | nil => exact fun i => hinv i
  | cons i clients ih =>
    obtain ⟨hi, hnodup⟩ := List.nodup_cons.1 hnodup
    have hhead := hinv i
    rw [if_pos List.mem_cons_self] at hhead
    obtain ⟨hpost, hothers⟩ := hhead.post (hawake i List.mem_cons_self)
    have hfold : (post w1 (i :: clients) s).2.foldl invoke h =
        (post w1 clients (s.setClient i ((s.client i).post w1))).2.foldl invoke
          ((s.client i).postTo (s.krClient i) w1 h) := by
      rw [post, Client.postTo]
      split_ifs <;> rfl
    rw [hfold]
    refine ih hnodup (fun j => ?_) fun j hj => ?_
    · show ClientInv _ _ _ _ (s.krClient j) _
      by_cases hji : j = i
      · subst hji
        rw [if_neg hi, s.setClient_client]
        exact hpost
      · have hother := hinv j
        rw [s.setClient_client_of_ne _ hji, hothers j hji]
        simpa only [List.mem_cons, hji, false_or] using hother
    · have hji : j ≠ i := fun heq => hi (heq ▸ hj)
      rw [s.setClient_client_of_ne _ hji, hothers j hji]
      exact hawake j (List.mem_cons_of_mem _ hj)

namespace Inv

variable (hinv : Inv n s h)
include hinv

variable {client : Option (Fin NCLIENT)} {m : Message}

theorem answer (hkey : m.invKey = some ⟨client, n⟩) :
    Inv (n + 1) s ([m].foldl invoke h) := by
  have hsame : ∀ i, invoke h m i = h i := by
    intro i
    unfold invoke
    rw [hkey]
    cases client with
    | none => rfl
    | some j =>
      by_cases hij : i = j
      · subst hij
        show update h i _ i = h i
        rw [update_self, History.reply]
        cases hwait : (h i).waiting with
        | none => rfl
        | some wait => exact if_neg ((hinv i).waiting wait.1 wait.2 hwait).2.2.2.1.ne
      · exact update_of_ne hij _ _
  intro i
  show ClientInv _ _ _ _ _ (invoke h m i)
  rw [hsame]
  exact (hinv i).succ

theorem post (hkey : m.invKey = some ⟨client, n⟩)
    (hawake : ∀ i, (s.client i).sleeping = true → (h i).waiting = none → (s.client i).wakeup &&& w1 = 0#32) :
    Inv (n + 1) (SigMux.post w1 (List.finRange NCLIENT) s).1
      (((SigMux.post w1 (List.finRange NCLIENT) s).2 ++ [m]).foldl invoke
        fun i => { h i with owed := (h i).owed ||| w1 }) := by
  have hposted : ∀ i, ClientInv n (if i ∈ List.finRange NCLIENT then w1 else 0#32) i (s.client i) (s.krClient i)
      { h i with owed := (h i).owed ||| w1 } := by
    intro i
    rw [if_pos (List.mem_finRange i)]
    refine ⟨?_, (hinv i).quiet, (hinv i).waiting, (hinv i).answers⟩
    rw [← (hinv i).owed, BitVec.or_zero]
  rw [List.foldl_append]
  exact (post_inv (List.nodup_finRange NCLIENT) hposted fun i _ => hawake i).answer hkey

theorem wait (i : Fin NCLIENT) :
    Inv (n + 1) (SigMux.wait s ⟨some i, n⟩ i w1).1 ((SigMux.wait s ⟨some i, n⟩ i w1).2.foldl invoke
      (update h i { h i with waiting := some (n, w1) })) := by
  have hfresh : n ∉ (h i).answers.map Answer.call := fun hmem => lt_irrefl n ((hinv i).answers.past n hmem)
  have howed := (hinv i).owed
  intro j
  unfold SigMux.wait
  by_cases hzero : w1 &&& (s.client i).pending = 0#32
  · -- The client sleeps.
    simp only [if_pos hzero]
    show ClientInv _ _ _ _ (update s.krClient i _ j) (update h i _ j)
    by_cases hji : j = i
    · subst hji
      rw [s.setClient_client, update_self, update_self]
      refine ⟨howed, fun _ => hzero, fun call w hsome => ?_, (hinv j).answers.succ⟩
      obtain ⟨rfl, rfl⟩ := Prod.mk.inj (Option.some.inj hsome)
      exact ⟨rfl, rfl, rfl, Nat.lt_succ_self n, hfresh⟩
    · rw [s.setClient_client_of_ne _ hji, update_of_ne hji, update_of_ne hji]
      exact (hinv j).succ
  · simp only [if_neg hzero]
    rw [List.foldl_cons, List.foldl_nil]
    show ClientInv _ _ _ _ (s.krClient j) _
    by_cases hji : j = i
    · subst hji
      rw [BitVec.or_zero] at howed
      rw [s.setClient_client, invoke_self rfl, update_self]
      exact AnswersInv.reply (hinv j).answers.succ (Nat.lt_succ_self n) hfresh rfl hzero howed rfl
    · rw [s.setClient_client_of_ne _ hji, invoke_of_ne rfl hji, update_of_ne hji]
      exact (hinv j).succ

end Inv

theorem Inv.serve {r : Request} (hinv : Inv x.calls x.mux x.history) (hproper : x.Proper r)
    (hserve : x.serve r = some x') : Inv x'.calls x'.mux x'.history := by
  obtain ⟨keyInfo, code, w1⟩ := r
  obtain ⟨⟨mux, messages⟩, hout, rfl⟩ := Option.map_eq_some_iff.1 hserve
  unfold ProcessRequest at hout
  unfold Request.note
  cases code with
  | post =>
    by_cases hmaster : keyInfo = KI_MASTER
    · simp only [if_pos hmaster, Option.some.injEq, Prod.mk.injEq] at hout ⊢
      obtain ⟨rfl, rfl⟩ := hout
      apply hinv.post
      · rfl
      · exact hproper.2 rfl hmaster
    · simp only [if_neg hmaster, Option.some.injEq, Prod.mk.injEq] at hout ⊢
      obtain ⟨rfl, rfl⟩ := hout
      apply hinv.answer
      rfl
  | wait =>
    unfold Request.client at hout ⊢
    by_cases hclient : keyInfo < NCLIENT
    · simp only [dif_pos hclient, Option.some.injEq] at hout ⊢
      have hwait := @Inv.wait _ w1 _ _ hinv ⟨keyInfo, hclient⟩
      rwa [hout] at hwait
    · simp only [dif_neg hclient, Option.some.injEq, Prod.mk.injEq] at hout ⊢
      obtain ⟨rfl, rfl⟩ := hout
      apply hinv.answer
      rfl
  | makeRecipient =>
    simp only at hout ⊢
    split_ifs at hout <;> cases hout <;> apply hinv.answer <;> rfl
  | destroy => cases hout
  | unknown =>
    obtain ⟨rfl, rfl⟩ := hout
    apply hinv.answer
    rfl

theorem System.Reach.inv (h : System.Reach System.Proper x) : Inv x.calls x.mux x.history := by
  induction h with
  | init =>
    refine fun i => ⟨BitVec.or_zero, fun hsleep => ?_, fun call w hwait => ?_, List.nodup_nil, fun call hcall => ?_,
      fun a ha => ?_⟩
    · cases hsleep
    · cases hwait
    · cases hcall
    · cases ha
  | step r _ hproper hserve ih => exact ih.serve hproper hserve

structure Correct (x : System) : Prop where
  /-- A Wait is answered at most once. -/
  once : ∀ i, ((x.history i).answers.map Answer.call).Nodup
  /-- The answer has some of the signals that are waited for, and no others. -/
  wanted : ∀ i, ∀ a ∈ (x.history i).answers, a.w1 ≠ 0#32 ∧ a.w1 &&& a.wanted = a.w1
  /-- The pending signals of a client are those that have been posted since they were last delivered. -/
  exact : ∀ i, (x.mux.client i).pending = (x.history i).owed
  /-- No client waits for a signal that is pending. -/
  delivered : ∀ i call w, (x.history i).waiting = some (call, w) → w &&& (x.mux.client i).pending = 0#32

/-- The multiplexor does what is claimed in the runs of proper requests. -/
theorem signals_proper (h : System.Reach System.Proper x) : Correct x where
  once i := (h.inv i).answers.once
  wanted i := (h.inv i).answers.wanted
  exact i := BitVec.or_zero.symm.trans (h.inv i).owed
  delivered i call w hwait := by
    obtain ⟨hsleep, -, rfl, -⟩ := (h.inv i).waiting call w hwait
    exact (h.inv i).quiet hsleep

/-- A client waits and is woken. -/
theorem signals_proper_woken : ∃ x : System, (x.history ⟨0, by decide⟩).answers.map Answer.call = [0] ∧ Correct x := by
  have hwait := System.Reach.step ⟨0, .wait, 1#32⟩ (@System.Reach.init System.Proper)
    ⟨fun _ i _ => rfl, fun hcode => Code.noConfusion hcode⟩ rfl
  have hpost := hwait.step ⟨KI_MASTER, .post, 1#32⟩
    ⟨fun hcode => Code.noConfusion hcode, fun _ _ i hsleep hnone => by revert i; decide⟩ rfl
  exact ⟨_, by decide, signals_proper hpost⟩

/-- A client is woken, and the same signal is posted again before it waits again: it is lost. -/
theorem signals_lost : ¬∀ x, System.Reach System.OneWait x → Correct x := by
  intro h
  have hwait := System.Reach.step ⟨0, .wait, 1#32⟩ (@System.Reach.init System.OneWait) (fun _ i _ => rfl) rfl
  have hpost := hwait.step ⟨KI_MASTER, .post, 1#32⟩ (fun hcode => Code.noConfusion hcode) rfl
  have hagain := hpost.step ⟨KI_MASTER, .post, 1#32⟩ (fun hcode => Code.noConfusion hcode) rfl
  exact absurd ((h _ hagain).exact ⟨0, by decide⟩) (by decide)

end CapROS.SigMux
