import PrismPipe.Core.Deadline

/-! `Pipeline.execute` reads success back from two fields of the envelope; a node that fails without
a text leaves both as a success has them. -/

namespace PrismPipe.Pipeline

open PrismPipe.Core (Executor)
open Program

def Any (_ : Trace) (o : pipelineOps.Op) (_ : pipelineOps.Reply o) : Prop := True

theorem any_answers (l : Trace) (o : pipelineOps.Op) : ∃ r, Any l o r := by
  obtain ⟨r, -⟩ := monotonic_answers l o
  exact ⟨r, trivial⟩

/-- What `process` did is what comes back. -/
def Node.finishes (self : Node) (timeoutSeconds : Option ℚ) (x : Executor) : Bool :=
  match self.effectiveTimeout timeoutSeconds, x with
  | none, _ => true
  | some t, .inTime => decide (0 < t)
  | some _, _ => false

section Faults

variable (setup : Setup)

theorem maxIterationsMessage_ne : maxIterationsMessage setup ≠ "" :=
  append_ne_empty (append_ne_empty (by decide) _) _

def failing : Answer pipelineOps → Bool
  | ⟨.execute node e timeout, reply⟩ =>
    match (reply : NodeReply) with
    | .error _ => true
    | .ok (x, conduct) => !(node.executeWithTimeout setup.format e timeout x conduct).2.success
  | _ => false

def missing : Answer pipelineOps → Bool
  | ⟨.resolve _, found⟩ => (found : Option Node).isNone
  | _ => false

def silent : Answer pipelineOps → Bool
  | ⟨.execute node _ timeout, reply⟩ =>
    match (reply : NodeReply) with
    | .error (envelope, message) => envelope.error.isNone && message = ""
    | .ok (x, .returned _ success error) => node.finishes timeout x && !success && error.isNone
    | .ok (x, .raised envelope message) =>
      node.finishes timeout x && envelope.error.isNone && message = ""
  | _ => false

theorem Envelope.terminate_error_none {self : Envelope} {message : String} :
    (self.terminate (some message)).error = none ↔ self.error = none ∧ message = "" := by
  by_cases h : message = "" <;> simp [terminate, h]

theorem Envelope.terminate_terminated (self : Envelope) (error : Option String) :
    (self.terminate error).terminated = true := by
  cases error with
  | none => rfl
  | some message => by_cases h : message = "" <;> simp [terminate, h]

theorem Node.timeoutMessage_ne (self : Node) (format : ℚ → String) (t : ℚ) :
    self.timeoutMessage format t ≠ "" :=
  append_ne_empty (append_ne_empty (append_ne_empty (append_ne_empty (by decide) _) _) _) _

theorem executeSync_silent {node : Node} {conduct : Conduct}
    (h : (node.executeSync conduct).2.success = false) :
    (node.executeSync conduct).1.error = none ↔ (match conduct with
      | .returned _ success error => !success && error.isNone
      | .raised envelope message => envelope.error.isNone && message = "") = true := by
  cases conduct with
  | returned envelope success error =>
    cases h
    simp [Node.executeSync]
  | raised envelope message =>
    simp [Node.executeSync, Envelope.terminate_error_none, Envelope.record]

theorem Node.executeWithTimeout_cases (node : Node) (format : ℚ → String) (e : Envelope)
    (timeout : Option ℚ) (x : Executor) (conduct : Conduct) :
    (node.finishes timeout x = true ∧
      node.executeWithTimeout format e timeout x conduct = node.executeSync conduct) ∨
    (node.finishes timeout x = false ∧ ∃ message ≠ "",
      node.executeWithTimeout format e timeout x conduct =
        ((e.record node.capability).terminate (some message), ⟨false, some message⟩)) := by
  unfold finishes executeWithTimeout
  cases node.effectiveTimeout timeout with
  | none => exact .inl ⟨rfl, rfl⟩
  | some t =>
    by_cases ht : t ≤ 0
    · refine .inr ⟨?_, _, node.timeoutMessage_ne format t, by simp only [if_pos ht]; rfl⟩
      cases x <;> simp [ht]
    · cases x with
      | exhausted =>
        exact .inr ⟨rfl, "Synchronous node execution capacity exhausted", by decide,
          by simp only [if_neg ht]; rfl⟩
      | late =>
        exact .inr ⟨rfl, _, node.timeoutMessage_ne format t, by simp only [if_neg ht]; rfl⟩
      | inTime => exact .inl ⟨by simpa using ht, by simp only [if_neg ht]⟩

theorem executed_silent {node : Node} {e : Envelope} {timeout : Option ℚ} {x : Executor}
    {conduct : Conduct}
    (h : (node.executeWithTimeout setup.format e timeout x conduct).2.success = false) :
    (node.executeWithTimeout setup.format e timeout x conduct).1.error = none ↔
      silent ⟨.execute node e timeout, .ok (x, conduct)⟩ = true := by
  rcases node.executeWithTimeout_cases setup.format e timeout x conduct with
    ⟨hf, he⟩ | ⟨hf, message, hm, he⟩
  · rw [he] at h ⊢
    rw [executeSync_silent h]
    cases conduct <;> simp [silent, hf]
  · rw [he]
    cases conduct <;> simp [silent, hf, Envelope.terminate_error_none, hm]

theorem failing_of_silent {a : Answer pipelineOps} (h : silent a = true) :
    failing setup a = true := by
  obtain ⟨o, reply⟩ := a
  cases o with
  | monotonic | callback | resolve => cases h
  | execute node e timeout =>
    cases (reply : NodeReply) with
    | error => rfl
    | ok r =>
      obtain ⟨x, conduct⟩ := r
      rcases node.executeWithTimeout_cases setup.format e timeout x conduct with
        ⟨hf, he⟩ | ⟨hf, message, hm, he⟩
      · cases conduct with
        | returned envelope success error =>
          have hs : success = false := by
            cases success
            · rfl
            · simp [silent] at h
          subst hs
          simp [failing, he, Node.executeSync]
        | raised => simp [failing, he, Node.executeSync]
      · simp [failing, he]

def Calm (l : Trace) : Prop := ∀ a ∈ l, failing setup a = false ∧ missing a = false

variable (deadline : Option ℚ)

def Unheard (l : Trace) : Prop :=
  ∃ pre a post, l = pre ++ a :: post ∧ silent a = true ∧
    ∀ d, deadline = some d → ∀ t ∈ readings post, t < d

variable {setup deadline} {l : Trace}

theorem Calm.heard (h : Calm setup l) : ¬ Unheard deadline l := by
  rintro ⟨pre, a, post, rfl, ha, -⟩
  have := (h a (by simp)).1
  rw [failing_of_silent setup ha] at this
  cases this

theorem Calm.snoc (h : Calm setup l) {a : Answer pipelineOps} (hf : failing setup a = false)
    (hm : missing a = false) : Calm setup (l ++ [a]) := by
  intro b hb
  rcases List.mem_append.mp hb with hb | hb
  · exact h b hb
  · cases List.mem_singleton.mp hb
    exact ⟨hf, hm⟩

theorem unheard_snoc {b : Answer pipelineOps} : Unheard deadline (l ++ [b]) ↔
    silent b = true ∨
      Unheard deadline l ∧ ∀ d, deadline = some d → ∀ t ∈ readings [b], t < d := by
  constructor
  · rintro ⟨pre, a, post, hl, ha, hp⟩
    rcases List.eq_nil_or_concat post with rfl | ⟨post, c, rfl⟩
    · obtain ⟨-, hb⟩ := List.append_inj' hl rfl
      cases hb
      exact .inl ha
    · rw [List.concat_eq_append, ← List.cons_append, ← List.append_assoc] at hl
      obtain ⟨hl', hb⟩ := List.append_inj' hl rfl
      cases hb
      rw [List.concat_eq_append, readings_append] at hp
      refine .inr ⟨⟨pre, a, post, hl', ha, fun d hd t ht => ?_⟩, fun d hd t ht => ?_⟩
      · exact hp d hd t (List.mem_append_left _ ht)
      · exact hp d hd t (List.mem_append_right _ ht)
  · rintro (hb | ⟨⟨pre, a, post, rfl, ha, hp⟩, hb⟩)
    · exact ⟨l, b, [], rfl, hb, fun _ _ => List.forall_mem_nil _⟩
    · refine ⟨pre, a, post ++ [b], by simp, ha, fun d hd t ht => ?_⟩
      rw [readings_append] at ht
      rcases List.mem_append.mp ht with ht | ht
      · exact hp d hd t ht
      · exact hb d hd t ht

theorem unheard_clock {t : ℚ} : Unheard deadline (l ++ [⟨.monotonic, t⟩]) ↔
    Unheard deadline l ∧ ∀ d, deadline = some d → t < d := by
  rw [unheard_snoc]
  simp [silent, readings, reading]

theorem unheard_callback {event : HookEvent} {i : Nat} {r : Except String Unit} :
    Unheard deadline (l ++ [⟨.callback event i, r⟩]) ↔ Unheard deadline l := by
  rw [unheard_snoc]
  simp [silent, readings, reading]

variable (deadline)

def Told (envelope : Envelope) (l : Trace) : Prop :=
  envelope.error = none ↔ Unheard deadline l

inductive Verdict (setup : Setup) (run : Run) (l : Trace) : Prop
  | calm : Calm setup l → run.metrics.iterations ≤ setup.config.maxIterations.toNat →
      Verdict setup run l
  | told : run.envelope.terminated = true → Told deadline run.envelope l → Verdict setup run l

inductive Checked (setup : Setup) (run : Run) (l : Trace) : Bool × Run → Trace → Prop
  | unbounded : deadline = none → Checked setup run l (false, run) l
  | early : deadline = some d → t < d → Checked setup run l (false, run) (l ++ [⟨.monotonic, t⟩])
  | late : deadline = some d → d ≤ t →
      Checked setup run l (true, run.expire (timedOutMessage setup)) (l ++ [⟨.monotonic, t⟩])

variable {deadline} {run : Run} {r : Bool × Run} {m : Trace}

theorem completes_check : (enforceDeadline setup deadline run).Completes (logged Any)
    (Checked deadline setup run l) l := by
  cases deadline with
  | none => exact .unbounded rfl
  | some d =>
    refine completes_call (any_answers l _) fun (t : ℚ) _ => ?_
    change Checked (some d) setup run l
      (if t < d then (false, run) else (true, run.expire (timedOutMessage setup))) _
    split
    next ht => exact .early rfl ht
    next ht => exact .late rfl (not_lt.mp ht)

theorem Run.expire_iterations (run : Run) (message : String) :
    (run.expire message).metrics.iterations = run.metrics.iterations := by
  unfold expire
  dsimp only
  split <;> rfl

theorem Checked.iterations (h : Checked deadline setup run l r m) :
    r.2.metrics.iterations = run.metrics.iterations := by
  cases h with
  | unbounded | early => rfl
  | late => exact run.expire_iterations _

theorem Checked.calm (h : Checked deadline setup run l r m) (hc : Calm setup l) : Calm setup m := by
  cases h with
  | unbounded => exact hc
  | early | late => exact hc.snoc rfl rfl

theorem completes_remaining (hc : Calm setup l) :
    (remainingTimeout deadline).Completes (logged Any) (fun _ => Calm setup) l := by
  cases deadline with
  | none => exact hc
  | some d => exact completes_call (any_answers l _) fun _ _ => hc.snoc rfl rfl

theorem Run.expire_told {t : ℚ} (hd : deadline = some d) (ht : d ≤ t) :
    Told deadline (run.expire (timedOutMessage setup)).envelope (l ++ [⟨.monotonic, t⟩]) := by
  rw [Told, Run.expire_error (timedOutMessage_ne setup), unheard_clock]
  exact ⟨nofun, fun h => absurd ht (not_le.mpr (h.2 d hd))⟩

theorem Checked.told (h : Checked deadline setup run l r m) (ht : Told deadline run.envelope l) :
    Told deadline r.2.envelope m ∧
      (if r.1 then r.2.envelope.terminated = true else r.2 = run) := by
  cases h with
  | unbounded => exact ⟨ht, rfl⟩
  | early hd hlt =>
    refine ⟨ht.trans (unheard_clock.trans (and_iff_left fun _ hd' => ?_)).symm, rfl⟩
    obtain rfl := Option.some.inj (hd.symm.trans hd')
    exact hlt
  | late hd hle => exact ⟨Run.expire_told hd hle, Run.expire_terminated _ _⟩

theorem Checked.verdict (h : Checked deadline setup run l r m) (hv : Verdict deadline setup run l) :
    Verdict deadline setup r.2 m := by
  cases hv with
  | calm hc hi =>
    cases h with
    | unbounded => exact .calm hc hi
    | early => exact .calm (hc.snoc rfl rfl) hi
    | late =>
      refine .calm (hc.snoc rfl rfl) ?_
      rwa [Run.expire_iterations]
  | told hr ht =>
    obtain ⟨ht, hr'⟩ := h.told ht
    refine .told ?_ ht
    split at hr'
    · exact hr'
    · rwa [hr']

theorem completes_hook {P : Trace → Prop} {event : HookEvent}
    (hP : ∀ l i r, P l → P (l ++ [⟨.callback event i, r⟩])) (h : P l) :
    (runHook setup event).Completes (logged Any) (fun _ => P) l := by
  unfold runHook
  induction List.range (setup.hooks event) generalizing l with
  | nil => exact h
  | cons i is ih => exact completes_call (any_answers l _) fun r _ => ih (hP l i r h)

theorem Told.hook {envelope : Envelope} (h : Told deadline envelope l) {event : HookEvent} {i : Nat}
    {r : Except String Unit} : Told deadline envelope (l ++ [⟨.callback event i, r⟩]) :=
  h.trans unheard_callback.symm

theorem Verdict.hook (h : Verdict deadline setup run l) {event : HookEvent} {i : Nat}
    {r : Except String Unit} : Verdict deadline setup run (l ++ [⟨.callback event i, r⟩]) := by
  cases h with
  | calm hc hi => exact .calm (hc.snoc rfl rfl) hi
  | told hr ht => exact .told hr ht.hook

/-- What the `except` clause makes of an exception. -/
abbrev Caught (deadline : Option ℚ) (setup : Setup) (raised : Run × String) (l : Trace) : Prop :=
  Verdict deadline setup (raised.1.fail raised.2) l

theorem told_call {node : Node} {e envelope : Envelope} {timeout : Option ℚ} {reply : NodeReply}
    (hc : Calm setup l)
    (h : envelope.error = none ↔ silent ⟨.execute node e timeout, reply⟩ = true) :
    Told deadline envelope (l ++ [⟨.execute node e timeout, reply⟩]) := by
  rw [Told, h, unheard_snoc]
  exact (or_iff_left fun hu => hc.heard hu.1).symm

theorem executed_error {node : Node} {e : Envelope} {timeout : Option ℚ} {x : Executor}
    {conduct : Conduct} {message : String}
    (h : (node.executeWithTimeout setup.format e timeout x conduct).2.success = false)
    (hm : (node.executeWithTimeout setup.format e timeout x conduct).2.error = some message)
    (hne : message ≠ "") :
    (node.executeWithTimeout setup.format e timeout x conduct).1.error = some message := by
  rcases node.executeWithTimeout_cases setup.format e timeout x conduct with
    ⟨-, he⟩ | ⟨-, text, ht, he⟩
  · rw [he] at h hm ⊢
    cases conduct with
    | returned envelope success error =>
      cases h
      exact hm
    | raised =>
      cases hm
      simp [Node.executeSync, Envelope.terminate, hne]
  · rw [he] at hm ⊢
    cases hm
    simp [Envelope.terminate, ht]

theorem Envelope.terminate_error {self : Envelope} {error : Option String}
    (h : ∀ message, error = some message → message ≠ "" → self.error = some message) :
    (self.terminate error).error = self.error := by
  cases error with
  | none => rfl
  | some message =>
    by_cases hm : message = ""
    · simp [terminate, hm]
    · simp [terminate, hm, h message rfl hm]

theorem settle_iterations (result : NodeResult) :
    (settle setup run result).2.metrics.iterations = run.metrics.iterations := by
  unfold settle
  dsimp only
  split
  · rfl
  · split <;> rfl

theorem verdict_settle {result : NodeResult} (hcont : setup.config.continueOnError = false)
    (hv : if result.success then Verdict deadline setup run l
      else Told deadline run.envelope l ∧ (run.envelope.terminate result.error).error =
        run.envelope.error) :
    Ends (logged Any) (do
        let (late, run) ← (enforceDeadline setup deadline run : Task _)
        if late then return (true, run)
        (runHook setup .afterNode : Task _)
        let (late, run) ← (enforceDeadline setup deadline run : Task _)
        if late then return (true, run)
        return settle setup run result : Attempt (Bool × Run))
      (fun r m => Verdict deadline setup r.2 m ∧
        r.2.metrics.iterations = run.metrics.iterations) (Caught deadline setup) l := by
  by_cases hs : result.success = true
  · rw [if_pos hs] at hv
    refine ends_check completes_check ?_ ?_
    · exact fun _ _ h => ⟨h.verdict hv, h.iterations⟩
    intro run₁ l h
    have hi := h.iterations
    refine Completes.lift (completes_hook (fun _ _ _ hv => hv.hook) (h.verdict hv)) fun _ l hv => ?_
    refine ends_check completes_check ?_ ?_
    · exact fun _ _ h => ⟨h.verdict hv, h.iterations.trans hi⟩
    intro run₂ l h
    have he : settle setup run₂ result = (false, run₂) := by simp [settle, hs]
    simp only [Bool.false_eq_true, if_false, he]
    exact ⟨h.verdict hv, h.iterations.trans hi⟩
  · rw [if_neg hs] at hv
    obtain ⟨ht, herr⟩ := hv
    refine ends_check completes_check ?_ ?_
    · exact fun _ _ h => ⟨.told (h.told ht).2 (h.told ht).1, h.iterations⟩
    intro run₁ l h
    obtain ⟨ht₁, hr⟩ := h.told ht
    obtain rfl : run₁ = run := hr
    refine Completes.lift (completes_hook (P := Told deadline run₁.envelope)
      (fun _ _ _ h => h.hook) ht₁) fun _ l ht => ?_
    refine ends_check completes_check ?_ ?_
    · exact fun _ _ h => ⟨.told (h.told ht).2 (h.told ht).1, h.iterations⟩
    intro run₂ l h
    obtain ⟨ht₂, hr⟩ := h.told ht
    obtain rfl : run₂ = run₁ := hr
    refine ⟨.told ?_ ?_, settle_iterations _⟩
    · simp only [settle, hs, hcont, Bool.false_eq_true, if_false]
      exact Envelope.terminate_terminated _ _
    · simp only [settle, hs, hcont, Bool.false_eq_true, if_false]
      rwa [Told, herr]

theorem verdict_callNode {node : Node} {remaining : Option ℚ}
    (hcont : setup.config.continueOnError = false) (hc : Calm setup l)
    (hi : run.metrics.iterations ≤ setup.config.maxIterations.toNat) :
    Ends (logged Any) (callNode setup deadline node remaining run)
      (fun r m => Verdict deadline setup r.2 m ∧
        r.2.metrics.iterations = run.metrics.iterations) (Caught deadline setup) l := by
  refine ends_bind.mpr (ends_lift (completes_op (any_answers l _)
    fun (reply : NodeReply) _ => ?_))
  cases reply with
  | error raised =>
    refine .told (Envelope.terminate_terminated _ _) (told_call hc ?_)
    rw [Run.fail, Envelope.terminate_error_none]
    simp [silent]
  | ok reply =>
    obtain ⟨x, conduct⟩ := reply
    obtain ⟨after, hafter⟩ :
        ∃ after, node.executeWithTimeout setup.format run.envelope remaining x conduct = after :=
      ⟨_, rfl⟩
    have hv : if after.2.success then
        Verdict deadline setup (run.executed after.1 node.id)
          (l ++ [⟨.execute node run.envelope remaining, .ok (x, conduct)⟩])
        else Told deadline (run.executed after.1 node.id).envelope
          (l ++ [⟨.execute node run.envelope remaining, .ok (x, conduct)⟩]) ∧
          ((run.executed after.1 node.id).envelope.terminate after.2.error).error =
            (run.executed after.1 node.id).envelope.error := by
      subst hafter
      split
      next hs => exact .calm (hc.snoc (by simp [failing, hs]) rfl) hi
      next hs =>
        have hs := Bool.eq_false_iff.mpr hs
        exact ⟨told_call hc (executed_silent setup hs),
          Envelope.terminate_error fun _ hm hne => executed_error hs hm hne⟩
    subst hafter
    exact verdict_settle hcont hv

theorem Calm.told (h : Calm setup l) (hr : run.envelope.terminated = true)
    (he : run.envelope.error ≠ none) : Verdict deadline setup run l :=
  .told hr ⟨fun h => absurd h he, fun hu => absurd hu h.heard⟩

theorem Calm.fail (h : Calm setup l) {message : String} (hm : message ≠ "") :
    Verdict deadline setup (run.fail message) l := by
  refine h.told (Envelope.terminate_terminated _ _) fun he => ?_
  exact hm (Envelope.terminate_error_none.mp he).2

theorem verdict_enter {capability : String} (hcont : setup.config.continueOnError = false)
    (hc : Calm setup l) (hi : run.metrics.iterations ≤ setup.config.maxIterations.toNat) :
    Ends (logged Any) (enter setup deadline capability run)
      (fun r m => Verdict deadline setup r.2 m ∧
        r.2.metrics.iterations = run.metrics.iterations) (Caught deadline setup) l := by
  refine ends_bind.mpr (ends_lift (completes_op (any_answers l _) fun found _ => ?_))
  cases found with
  | none =>
    refine ⟨.told (Envelope.terminate_terminated _ _) ?_, rfl⟩
    have hne : notFound capability ≠ "" := append_ne_empty (by decide) _
    rw [Told, Run.fail, Envelope.terminate_error_none, unheard_snoc]
    simp [hne, silent, hc.heard]
  | some node =>
    have hc := hc.snoc (a := ⟨.resolve capability, some node⟩) rfl rfl
    refine ends_check completes_check ?_ ?_
    · intro run₁ l h
      have hi₁ : run₁.metrics.iterations = _ := h.iterations
      exact ⟨.calm (h.calm hc) (hi₁ ▸ hi), hi₁⟩
    intro run₁ l h
    have hi₁ : run₁.metrics.iterations = _ := h.iterations
    refine Completes.lift (completes_hook (P := Calm setup)
      (fun _ _ _ h => h.snoc rfl rfl) (h.calm hc)) fun _ l hc => ?_
    refine ends_check completes_check ?_ ?_
    · intro run₂ l h
      have hi₂ : run₂.metrics.iterations = _ := h.iterations.trans hi₁
      exact ⟨.calm (h.calm hc) (hi₂ ▸ hi), hi₂⟩
    intro run₂ l h
    have hi₂ : run₂.metrics.iterations = _ := h.iterations.trans hi₁
    refine Completes.lift (completes_remaining (h.calm hc)) fun remaining l hc => ?_
    by_cases hr : remaining.any (· ≤ 0) = true
    · simp only [hr, if_true]
      refine Completes.lift completes_check ?_
      rintro ⟨late, run₃⟩ l h
      have hi₃ : run₃.metrics.iterations = _ := h.iterations.trans hi₂
      exact ⟨.calm (h.calm hc) (hi₃ ▸ hi), hi₃⟩
    · simp only [Bool.false_eq_true, if_false, hr]
      have hcall : Ends (logged Any) (callNode setup deadline node remaining run₂) _ _ l :=
        verdict_callNode hcont hc (hi₂ ▸ hi)
      exact hcall.mono (fun _ _ h => ⟨h.1, h.2.trans hi₂⟩) fun _ _ => id

theorem Verdict.wanted (h : Verdict deadline setup run l) (hw : run.wanted = true) :
    Calm setup l := by
  cases h with
  | calm hc => exact hc
  | told hr => simp [Run.wanted, hr] at hw

theorem verdict_loop {left : Nat} (hcont : setup.config.continueOnError = false)
    (hv : Verdict deadline setup run l)
    (hi : run.metrics.iterations + left = setup.config.maxIterations.toNat) :
    Ends (logged Any) (loop setup deadline left run) (Verdict deadline setup)
      (Caught deadline setup) l := by
  induction left generalizing run l with
  | zero =>
    unfold loop
    split
    next hw =>
      have hc := hv.wanted hw
      refine ends_check completes_check ?_ ?_
      · exact fun _ _ h => h.verdict hv
      · exact fun _ _ h => (h.calm hc).told (Envelope.terminate_terminated _ _) fun he =>
          maxIterationsMessage_ne setup (Envelope.terminate_error_none.mp he).2
    · exact hv
  | succ left ih =>
    unfold loop
    split
    next hw =>
      have hc := hv.wanted hw
      refine ends_check completes_check ?_ ?_
      · exact fun _ _ h => h.verdict hv
      intro run₁ l h
      have hc := h.calm hc
      have hi₁ : run₁.metrics.iterations = _ := h.iterations
      have hit : run₁.iterate.metrics.iterations + left = setup.config.maxIterations.toNat := by
        rw [← hi, ← hi₁]
        simp only [Run.iterate]
        omega
      have hle : run₁.iterate.metrics.iterations ≤ setup.config.maxIterations.toNat := by omega
      have hcalm : Verdict deadline setup run₁.iterate l := .calm hc hle
      simp only [Bool.false_eq_true, if_false]
      split
      · exact hcalm
      · split
        · exact hcalm
        · refine Ends.bind (verdict_enter hcont hc hle) ?_ fun _ _ => id
          rintro ⟨broke, run₂⟩ l ⟨hv, hi₂⟩
          cases broke with
          | true => exact hv
          | false => exact ih hv (by rw [← hit, ← hi₂])
    · exact hv

def Faulted (setup : Setup) (l : Trace) (result : PipelineResult) : Prop :=
  (∃ a ∈ l, failing setup a = true) ∨ (∃ a ∈ l, missing a = true) ∨
    setup.config.maxIterations.toNat < result.iterations

theorem Calm.not_faulted (h : Calm setup l) {result : PipelineResult}
    (hi : result.iterations ≤ setup.config.maxIterations.toNat) : ¬ Faulted setup l result := by
  rintro (⟨a, ha, hf⟩ | ⟨a, ha, hm⟩ | hlt)
  · rw [(h a ha).1] at hf
    cases hf
  · rw [(h a ha).2] at hm
    cases hm
  · exact absurd hi (not_le.mpr hlt)

theorem Unheard.faulted (h : Unheard deadline l) {result : PipelineResult} :
    Faulted setup l result := by
  obtain ⟨pre, a, post, rfl, ha, -⟩ := h
  exact .inl ⟨a, by simp, failing_of_silent setup ha⟩

theorem completes_finish (hv : Verdict deadline setup run l) :
    (conclude setup deadline run).Completes (logged Any) (fun result m =>
      (Faulted setup m result → result.success = false) ↔ ¬ Unheard deadline m) l := by
  refine (completes_hook (P := Verdict deadline setup run) (fun _ _ _ h => h.hook) hv).bind ?_
  intro _ l hv
  refine completes_check.bind ?_
  rintro ⟨late, run₁⟩ l h
  have hv := h.verdict hv
  refine completes_check.bind ?_
  rintro ⟨late, run₂⟩ l h
  have hv := h.verdict hv
  cases hv with
  | calm hc hi => exact iff_of_true (fun hf => absurd hf (hc.not_faulted hi)) hc.heard
  | told hr ht =>
    constructor
    · intro hs hu
      have he : run₂.envelope.error = none := ht.mpr hu
      have hfalse := hs hu.faulted
      simp [Run.result, he] at hfalse
    · intro hu _
      have hr : run₂.envelope.terminated = true := hr
      have hne : run₂.envelope.error ≠ none := fun he => hu (ht.mp he)
      simp [Run.result, hr, Option.isSome_iff_ne_none, hne]

theorem completes_deadlineOf : (deadlineOf setup).Completes (logged Any) (fun deadline l =>
    Calm setup l ∧ ∀ m, l <+: m → deadlineIn setup m = deadline) [] := by
  have hnil : Calm setup [] := fun a ha => nomatch ha
  unfold deadlineOf
  cases h : setup.config.timeoutSeconds with
  | none => exact ⟨hnil, fun m _ => by rw [deadlineIn, h]; rfl⟩
  | some timeout =>
    refine completes_call (any_answers _ _) fun (start : ℚ) _ => ⟨hnil.snoc rfl rfl, ?_⟩
    rintro _ ⟨m, rfl⟩
    rw [deadlineIn, h]
    rfl

/-- A faulted run is reported as no success unless its node failed in silence, and no reading after
was at the deadline. -/
theorem success_sound_iff (setup : Setup) (hcont : setup.config.continueOnError = false)
    (envelope : Envelope) :
    (execute setup envelope).Completes (logged Any) (fun result l =>
      (Faulted setup l result → result.success = false) ↔
        ¬ Unheard (deadlineIn setup l) l) [] := by
  refine completes_deadlineOf.bind fun deadline l ⟨hc, hd⟩ => ?_
  have hrest : ((runHook setup .beforeExecute).bind fun _ =>
      (loop setup deadline setup.config.maxIterations.toNat ⟨resume setup envelope, {}⟩).run.bind
        fun attempt => (recover setup attempt).bind (conclude setup deadline)).Completes
      (logged Any) (fun result m => (Faulted setup m result → result.success = false) ↔
        ¬ Unheard deadline m) l := by
    refine (completes_hook (P := Calm setup) (fun _ _ _ h => h.snoc rfl rfl) hc).bind
      fun _ l hc => ?_
    have hloop : Ends (logged Any) (loop setup deadline setup.config.maxIterations.toNat
        ⟨resume setup envelope, {}⟩) (Verdict deadline setup) (Caught deadline setup) l :=
      verdict_loop hcont (.calm hc (Nat.zero_le _)) (Nat.zero_add _)
    refine Completes.bind hloop fun attempt l hv => ?_
    have hrec : (recover setup attempt).Completes (logged Any) (Verdict deadline setup) l := by
      cases attempt with
      | ok run => exact hv
      | error raised =>
        exact (completes_hook (P := Verdict deadline setup (raised.1.fail raised.2))
          (fun _ _ _ h => h.hook) hv).bind fun _ _ h => h
    exact hrec.bind fun _ _ => completes_finish
  refine hrest.extends.mono fun result m ⟨hm, hl⟩ => ?_
  rwa [hd m hl]

def mute : Answer pipelineOps :=
  ⟨.execute ⟨"n", "a", none⟩ ⟨[], some "a", none, false⟩ none,
    .ok (.inTime, .returned ⟨[], some "a", none, false⟩ false none)⟩

/-- Its run is a success. -/
theorem mute_succeeds : ¬ (execute ⟨⟨3, none, false, true⟩, fun _ => 0, fun _ => ""⟩
    ⟨[], some "a", none, false⟩).Completes (logged Any) (fun result l =>
      Faulted ⟨⟨3, none, false, true⟩, fun _ => 0, fun _ => ""⟩ l result →
        result.success = false) [] := by
  intro h
  have h₁ := h.2 (some ⟨"n", "a", none⟩) _ ⟨trivial, rfl⟩
  have h₂ := h₁.2 mute.2 _ ⟨trivial, rfl⟩
  have h₃ := h₂ (.inl ⟨mute, List.mem_append_right _ List.mem_cons_self, rfl⟩)
  exact absurd h₃ (by decide)

theorem success_sound_iff_mute : ¬ (execute ⟨⟨3, none, false, true⟩, fun _ => 0, fun _ => ""⟩
    ⟨[], some "a", none, false⟩).Completes (logged Any) (fun _ l => ¬ Unheard none l) [] := by
  intro h
  have hsound := success_sound_iff ⟨⟨3, none, false, true⟩, fun _ => 0, fun _ => ""⟩ rfl
    ⟨[], some "a", none, false⟩
  have h₁ := h.2 (some ⟨"n", "a", none⟩) _ ⟨trivial, rfl⟩
  have h₂ := h₁.2 mute.2 _ ⟨trivial, rfl⟩
  have hsound₁ := hsound.2 (some ⟨"n", "a", none⟩) _ ⟨trivial, rfl⟩
  have hsound₂ := hsound₁.2 mute.2 _ ⟨trivial, rfl⟩
  have hfalse := hsound₂.mpr h₂ (.inl ⟨mute, List.mem_append_right _ List.mem_cons_self, rfl⟩)
  exact absurd hfalse (by decide)

end Faults

end PrismPipe.Pipeline
