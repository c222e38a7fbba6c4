import PrismPipe.Core.Pipeline

/-! The deadline of `Pipeline.execute`, on every clock that does not go back. -/

namespace PrismPipe.Pipeline

open Program

abbrev Trace := Log pipelineOps

def reading : Answer pipelineOps → Option ℚ
  | ⟨.monotonic, t⟩ => some t
  | _ => none

def readings (l : Trace) : List ℚ := l.filterMap reading

def started : Answer pipelineOps → Bool
  | ⟨.execute .., _⟩ => true
  | _ => false

def executions (l : Trace) : Nat := l.countP started

def deadlineIn (setup : Setup) (l : Trace) : Option ℚ :=
  setup.config.timeoutSeconds.bind fun timeout =>
    (readings l).head?.map fun start => start + max timeout 0

def Monotonic (l : Trace) : (o : pipelineOps.Op) → pipelineOps.Reply o → Prop
  | .monotonic, (t : ℚ) => ∀ u ∈ readings l, u ≤ t
  | _, _ => True

@[simp] theorem readings_append (l m : Trace) : readings (l ++ m) = readings l ++ readings m :=
  List.filterMap_append

@[simp] theorem executions_append (l m : Trace) :
    executions (l ++ m) = executions l + executions m := List.countP_append

theorem exists_ge (l : List ℚ) : ∃ t, ∀ u ∈ l, u ≤ t := by
  induction l with
  | nil => exact ⟨0, List.forall_mem_nil _⟩
  | cons u l ih =>
    obtain ⟨t, ht⟩ := ih
    refine ⟨max u t, List.forall_mem_cons.mpr ⟨le_max_left _ _, ?_⟩⟩
    exact fun v hv => (ht v hv).trans (le_max_right _ _)

theorem monotonic_answers (l : Trace) (o : pipelineOps.Op) : ∃ r, Monotonic l o r := by
  cases o with
  | monotonic => exact exists_ge _
  | callback => exact ⟨.ok (), trivial⟩
  | resolve => exact ⟨none, trivial⟩
  | execute => exact ⟨.error (⟨[], none, none, false⟩, ""), trivial⟩

inductive Punctual (d : ℚ) : Trace → Prop
  | nil : Punctual d []
  | wait : Punctual d l → started a = false → Punctual d (l ++ [a])
  | start : Punctual d l → (∀ t ∈ readings l, t < d) → 0 < r →
      Punctual d (l ++ [⟨.execute node e (some r), reply⟩])

theorem Punctual.late (h : Punctual d l) {pre post : Trace} {t : ℚ}
    (hl : l = pre ++ ⟨.monotonic, t⟩ :: post) (ht : d ≤ t) : executions post = 0 := by
  induction h generalizing post with
  | nil => simp at hl
  | @wait l a _ ha ih =>
    rcases List.eq_nil_or_concat post with rfl | ⟨post, b, rfl⟩
    · rfl
    · rw [List.concat_eq_append, ← List.cons_append, ← List.append_assoc] at hl
      obtain ⟨hl', hb⟩ := List.append_inj' hl rfl
      cases hb
      rw [List.concat_eq_append, executions_append, ih hl', executions, List.countP_singleton, ha]
      rfl
  | @start l r _ _ _ _ hr _ ih =>
    rcases List.eq_nil_or_concat post with rfl | ⟨post, b, rfl⟩
    · rfl
    · rw [List.concat_eq_append, ← List.cons_append, ← List.append_assoc] at hl
      obtain ⟨rfl, -⟩ := List.append_inj' hl rfl
      have hlt : (t : ℚ) < d := hr t (List.mem_filterMap.mpr
        ⟨(⟨.monotonic, t⟩ : Answer pipelineOps), by simp, rfl⟩)
      exact absurd ht (not_le.mpr hlt)

theorem Punctual.remaining (h : Punctual d l)
    (hm : (⟨.execute node e timeout, reply⟩ : Answer pipelineOps) ∈ l) :
    ∃ r, timeout = some r ∧ 0 < r := by
  induction h with
  | nil => cases hm
  | wait _ ha ih =>
    rcases List.mem_append.mp hm with hm | hm
    · exact ih hm
    · cases List.mem_singleton.mp hm
      cases ha
  | start _ _ hr ih =>
    rcases List.mem_append.mp hm with hm | hm
    · exact ih hm
    · cases List.mem_singleton.mp hm
      exact ⟨_, rfl, hr⟩

structure Kept (start d : ℚ) (n : Nat) (l : Trace) : Prop where
  head : (readings l).head? = some start
  punctual : Punctual d l
  bound : executions l ≤ n

theorem Kept.wait (h : Kept start d n l) (ha : started a = false) :
    Kept start d n (l ++ [a]) where
  head := by simp [h.head]
  punctual := .wait h.punctual ha
  bound := by simpa [executions, ha] using h.bound

theorem Kept.mono (h : Kept start d n l) (hn : n ≤ m) : Kept start d m l :=
  { h with bound := h.bound.trans hn }

section Calls

variable {setup : Setup} {start d : ℚ} {n : Nat} {l : Trace} {run : Run}

theorem completes_runCallbacks {event : HookEvent} (h : Kept start d n l) (is : List Nat) :
    (runCallbacks event is).Completes (logged Monotonic) (fun _ => Kept start d n) l := by
  induction is generalizing l with
  | nil => exact h
  | cons i is ih => exact completes_call (monotonic_answers l _) fun _ _ => ih (h.wait rfl)

theorem completes_runHook {event : HookEvent} (h : Kept start d n l) :
    (runHook setup event).Completes (logged Monotonic) (fun _ => Kept start d n) l :=
  completes_runCallbacks h _

def Enforced (setup : Setup) (d : ℚ) (run : Run) (r : Bool × Run) (l : Trace) : Prop :=
  ∃ t, (readings l).getLast? = some t ∧ (∀ u ∈ readings l, u ≤ t) ∧
    r = if t < d then (false, run) else (true, run.expire (timedOutMessage setup))

theorem readings_clock (l : Trace) (t : ℚ) :
    readings (l ++ [⟨.monotonic, t⟩]) = readings l ++ [t] := readings_append l _

theorem le_clock {t : ℚ} (ht : ∀ u ∈ readings l, u ≤ t) :
    ∀ u ∈ readings (l ++ [⟨.monotonic, t⟩]), u ≤ t := by
  intro u hu
  rw [readings_clock] at hu
  rcases List.mem_append.mp hu with hu | hu
  · exact ht u hu
  · exact (List.mem_singleton.mp hu).le

theorem completes_enforceDeadline (h : Kept start d n l) :
    (enforceDeadline setup (some d) run).Completes (logged Monotonic)
      (fun r l => Kept start d n l ∧ Enforced setup d run r l) l := by
  refine completes_call (monotonic_answers l _) fun t ht => ⟨h.wait rfl, t, ?_, le_clock ht, rfl⟩
  rw [readings_clock, List.getLast?_concat]

theorem completes_remainingTimeout (h : Kept start d n l) :
    (remainingTimeout (some d)).Completes (logged Monotonic) (fun remaining l => Kept start d n l ∧
      ∃ t, remaining = some (d - t) ∧ ∀ u ∈ readings l, u ≤ t) l :=
  completes_call (monotonic_answers l _) fun t ht => ⟨h.wait rfl, t, rfl, le_clock ht⟩

theorem Kept.call {r : ℚ} (h : Kept start d n l) (hl : ∀ t ∈ readings l, t < d) (hr : 0 < r)
    (node : Node) (e : Envelope) (reply : NodeReply) :
    Kept start d (n + 1) (l ++ [⟨.execute node e (some r), reply⟩]) where
  head := by simp [h.head]
  punctual := .start h.punctual hl hr
  bound := by
    have := h.bound
    rw [executions_append]
    exact Nat.add_le_add_right this 1

theorem ends_check {α σ : Type} {W : World pipelineOps σ} {deadline : Option ℚ} {s : σ}
    {f : Bool × Run → Attempt α} {R : Bool × Run → σ → Prop} {Q : α → σ → Prop}
    {E : Run × String → σ → Prop} (h : (enforceDeadline setup deadline run).Completes W R s)
    (hlate : ∀ run t, R (true, run) t → Ends W (f (true, run)) Q E t)
    (hearly : ∀ run t, R (false, run) t → Ends W (f (false, run)) Q E t) :
    Ends W ((enforceDeadline setup deadline run : Task _) >>= f) Q E s := by
  refine Completes.lift h ?_
  rintro ⟨late, run⟩ t h
  cases late with
  | true => exact hlate run t h
  | false => exact hearly run t h

/-- An attempt that keeps the count at `n`. -/
abbrev Keeps (start d : ℚ) (n : Nat) (p : Attempt α) (l : Trace) : Prop :=
  Ends (logged Monotonic) p (fun _ => Kept start d n) (fun _ => Kept start d n) l

theorem keeps_callNode {node : Node} {r : ℚ} (h : Kept start d n l)
    (hl : ∀ t ∈ readings l, t < d) (hr : 0 < r) :
    Keeps start d (n + 1) (callNode setup (some d) node (some r) run) l := by
  refine ends_bind.mpr (ends_lift (completes_op (monotonic_answers l _) fun reply _ => ?_))
  have h := h.call hl hr node run.envelope reply
  cases reply with
  | error raised => exact h
  | ok reply =>
    obtain ⟨x, conduct⟩ := reply
    refine ends_check (completes_enforceDeadline h) ?_ ?_
    · exact fun _ _ h => h.1
    rintro run l ⟨h, -⟩
    refine Completes.lift (completes_runHook h) fun _ l h => ?_
    refine ends_check (completes_enforceDeadline h) ?_ ?_
    · exact fun _ _ h => h.1
    · exact fun _ _ h => h.1

theorem keeps_enter {capability : String} (h : Kept start d n l) :
    Keeps start d (n + 1) (enter setup (some d) capability run) l := by
  have hn {l : Trace} (h : Kept start d n l) : Kept start d (n + 1) l := h.mono n.le_succ
  refine ends_bind.mpr (ends_lift (completes_op (monotonic_answers l _) fun found _ => ?_))
  replace h : Kept start d n (l ++ [⟨.resolve capability, found⟩]) := h.wait rfl
  cases found with
  | none => exact hn h
  | some node =>
    refine ends_check (completes_enforceDeadline h) ?_ ?_
    · exact fun _ _ h => hn h.1
    rintro run l ⟨h, -⟩
    refine Completes.lift (completes_runHook h) fun _ l h => ?_
    refine ends_check (completes_enforceDeadline h) ?_ ?_
    · exact fun _ _ h => hn h.1
    rintro run l ⟨h, -⟩
    refine Completes.lift (completes_remainingTimeout h) ?_
    rintro _ l ⟨h, t, rfl, hl⟩
    by_cases hr : d - t ≤ 0
    · simp only [Option.any_some, hr, decide_true, if_true]
      refine Completes.lift (completes_enforceDeadline h) ?_
      exact fun _ _ h => hn h.1
    · simp only [Bool.false_eq_true, if_false, Option.any_some, hr, decide_false]
      have ht : t < d := sub_pos.mp (not_le.mp hr)
      exact keeps_callNode h (fun u hu => (hl u hu).trans_lt ht) (not_le.mp hr)

theorem keeps_loop (h : Kept start d n l) :
    Keeps start d (n + left) (loop setup (some d) left run) l := by
  induction left generalizing n run l with
  | zero =>
    unfold loop
    split
    · refine ends_check (completes_enforceDeadline h) ?_ ?_
      · exact fun _ _ h => h.1
      · exact fun _ _ h => h.1
    · exact h
  | succ left ih =>
    have hn {l : Trace} (h : Kept start d n l) : Kept start d (n + (left + 1)) l :=
      h.mono (Nat.le_add_right _ _)
    unfold loop
    split
    · refine ends_check (completes_enforceDeadline h) ?_ ?_
      · exact fun _ _ h => hn h.1
      rintro run l ⟨h, -⟩
      simp only [Bool.false_eq_true, if_false]
      split
      · exact hn h
      · split
        · exact hn h
        · refine Ends.bind (keeps_enter h) ?_ fun _ _ h => h.mono (by omega)
          rintro ⟨broke, run⟩ l h
          cases broke with
          | true => exact h.mono (by omega)
          | false =>
            have : Keeps start d (n + 1 + left) (loop setup (some d) left run) l := ih h
            rwa [Nat.add_assoc, Nat.add_comm 1] at this
    · exact hn h

theorem append_ne_empty {a : String} (h : a ≠ "") (b : String) : a ++ b ≠ "" :=
  fun he => h (String.append_eq_empty_iff.mp he).1

theorem timedOutMessage_ne (setup : Setup) : timedOutMessage setup ≠ "" :=
  append_ne_empty (append_ne_empty (by decide) _) _

theorem Run.expire_error {run : Run} {message : String} (h : message ≠ "") :
    (run.expire message).envelope.error = some message := by
  simp [expire, Envelope.terminate, h]

theorem Run.expire_terminated (run : Run) (message : String) :
    (run.expire message).envelope.terminated = true := by
  simp only [expire, Envelope.terminate]
  split <;> rfl

theorem completes_conclude (h : Kept start d n l) :
    (conclude setup (some d) run).Completes (logged Monotonic) (fun result l => Kept start d n l ∧
      ∃ t, (readings l).getLast? = some t ∧ (∀ u ∈ readings l, u ≤ t) ∧
        (d ≤ t → result.error = some (timedOutMessage setup) ∧ result.success = false)) l := by
  refine (completes_runHook h).bind fun _ l h => ?_
  refine (completes_enforceDeadline h).bind ?_
  rintro ⟨-, run⟩ l ⟨h, -⟩
  refine (completes_enforceDeadline h).bind ?_
  rintro r l ⟨h, t, hlast, hl, hr⟩
  refine ⟨h, t, hlast, hl, fun ht => ?_⟩
  rw [if_neg (not_lt.mpr ht)] at hr
  subst hr
  have he : (run.expire (timedOutMessage setup)).envelope.error = some (timedOutMessage setup) :=
    Run.expire_error (timedOutMessage_ne setup)
  exact ⟨he, by simp [Run.result, he, Run.expire_terminated]⟩

end Calls

/-- With a timeout, on a clock that does not go back: a success is before the deadline by the last
reading; nodes are started with time left, at most `max_iterations` of them and none after a reading
at the deadline, and then the result is the timeout. -/
theorem deadline_law (setup : Setup) (timeout : ℚ) (h : setup.config.timeoutSeconds = some timeout)
    (envelope : Envelope) :
    (execute setup envelope).Completes (logged Monotonic) (fun result l =>
      ∃ d last, deadlineIn setup l = some d ∧ (readings l).getLast? = some last ∧
        (result.success → last < d) ∧
        (∀ node e remaining reply, (⟨.execute node e remaining, reply⟩ : Answer pipelineOps) ∈ l →
          ∃ r, remaining = some r ∧ 0 < r) ∧
        executions l ≤ setup.config.maxIterations.toNat ∧
        ∀ pre (t : ℚ) post, l = pre ++ ⟨.monotonic, t⟩ :: post → d ≤ t →
          executions post = 0 ∧ result.error = some (timedOutMessage setup)) [] := by
  unfold execute deadlineOf
  rw [h]
  refine completes_call (monotonic_answers _ _) fun (start : ℚ) _ => ?_
  have hk : Kept start (start + max timeout 0) 0 [⟨.monotonic, start⟩] := {
    head := rfl
    punctual := .wait .nil rfl
    bound := le_rfl }
  refine (completes_runHook hk).bind fun _ l hk => ?_
  refine Completes.bind (keeps_loop hk) fun attempt l hk => ?_
  have hn : 0 + setup.config.maxIterations.toNat = setup.config.maxIterations.toNat :=
    Nat.zero_add _
  have hrec : (recover setup attempt).Completes (logged Monotonic)
      (fun _ => Kept start (start + max timeout 0) setup.config.maxIterations.toNat) l := by
    rw [hn] at hk
    cases attempt with
    | ok run => exact hk
    | error raised => exact (completes_runHook hk).bind fun _ _ h => h
  refine hrec.bind fun run l hk => (completes_conclude hk).mono ?_
  rintro result l ⟨hk, last, hlast, hl, hlate⟩
  have hd : deadlineIn setup l = some (start + max timeout 0) := by simp [deadlineIn, h, hk.head]
  refine ⟨start + max timeout 0, last, hd, hlast, ?_, ?_, hk.bound, ?_⟩
  · intro hs
    by_contra hn
    rw [(hlate (not_lt.mp hn)).2] at hs
    cases hs
  · exact fun _ _ _ _ hm => hk.punctual.remaining hm
  · intro pre t post hpost ht
    refine ⟨hk.punctual.late hpost ht, (hlate (ht.trans (hl t ?_))).1⟩
    rw [hpost]
    exact List.mem_filterMap.mpr ⟨(⟨.monotonic, t⟩ : Answer pipelineOps), by simp, rfl⟩

/-- Three iterations and ten seconds. -/
theorem deadline_law_three : (execute ⟨⟨3, some 10, false, true⟩, fun _ => 1, fun _ => "10"⟩
    ⟨[], some "a", none, false⟩).Completes (logged Monotonic) (fun result l => executions l ≤ 3 ∧
      ∃ d last, (readings l).getLast? = some last ∧ (result.success → last < d)) [] := by
  refine (deadline_law _ 10 rfl _).mono ?_
  rintro result l ⟨d, last, -, hlast, hs, -, hn, -⟩
  exact ⟨hn, d, last, hlast, hs⟩

end PrismPipe.Pipeline
