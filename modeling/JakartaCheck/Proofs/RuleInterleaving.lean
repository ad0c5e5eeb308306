import JakartaCheck.Rules.Schedule
import Mathlib

/-!
# Every schedule gives the same answer

An analysis under way keeps `Inv`: a task that is done has the diagnostics of its rule and has called
off all its tokens, and a task is skipped only when the token of the analysis is called off. Tokens
stay called off. So if the last look finds the token live, no task was skipped and the answer is the
complete list (`Inv.conclusion`); and if nobody outside touches the token, it ends called off exactly
if it was so at the start or a rule calls it off, in whatever order the rules run (`Run.calledOff`).
The steps of the analysis use up `State.work`, and one is possible until there is an answer
(`Inv.exists_step`).
-/

namespace JakartaCheck

/-- What a rule adds to the complete list: the first diagnostics that it reports, if it applies and
neither fails nor crashes. -/
def Rule.kept (maxPerRule : Nat) (unit : CompilationUnit) (rule : Rule) : List Diagnostic :=
  if rule.isApplicable unit then
    match (rule.collect unit).result with
    | .ok diagnostics => diagnostics.take maxPerRule
    | .error _ => []
  else []

/-- The token is called off at the start, or by a rule that applies. -/
def Engine.CalledOff (unit : CompilationUnit) (token : CancelToken) (cancelled : List CancelToken)
    (rules : List Rule) : Prop :=
  token ∈ cancelled ∨ ∃ rule ∈ rules, rule.isApplicable unit ∧ token ∈ (rule.collect unit).cancels

namespace Engine

variable {maxPerRule : Nat} {unit : CompilationUnit} {token : CancelToken}

theorem runRule_fst (rule : Rule) : (runRule maxPerRule rule unit).1 = rule.kept maxPerRule unit := by
  cases ha : rule.isApplicable unit with
  | false => simp [runRule, Rule.kept, ha]
  | true => cases hr : (rule.collect unit).result <;> simp [runRule, Rule.kept, ha, hr]

theorem mem_runRule_snd {rule : Rule} : token ∈ (runRule maxPerRule rule unit).2 ↔
    rule.isApplicable unit ∧ token ∈ (rule.collect unit).cancels := by
  cases ha : rule.isApplicable unit with
  | false => simp [runRule, ha]
  | true => cases hr : (rule.collect unit).result <;> simp [runRule, ha, hr]

theorem calledOff_cons (maxPerRule : Nat) {cancelled : List CancelToken} {rule : Rule} {rules : List Rule} :
    CalledOff unit token cancelled (rule :: rules) ↔
      CalledOff unit token ((runRule maxPerRule rule unit).2 ++ cancelled) rules := by
  simp only [CalledOff, List.mem_append, mem_runRule_snd, List.exists_mem_cons_iff]
  constructor
  · rintro (h | h | h)
    exacts [.inl (.inr h), .inl (.inl h), .inr h]
  · rintro ((h | h) | h)
    exacts [.inr (.inl h), .inl h, .inr (.inr h)]

/-- Rules that run one after the other are called off, or give the complete list. -/
theorem analyze_fst (maxPerRule : Nat) (unit : CompilationUnit) (token : CancelToken)
    (cancelled : List CancelToken) (rules : List Rule) :
    (CalledOff unit token cancelled rules →
      (analyze maxPerRule unit token cancelled rules).1 = .error .cancelled) ∧
    (¬ CalledOff unit token cancelled rules →
      (analyze maxPerRule unit token cancelled rules).1 = .ok (rules.flatMap (Rule.kept maxPerRule unit))) := by
  induction rules generalizing cancelled with
  | nil => by_cases h : token ∈ cancelled <;> simp [CalledOff, analyze, h]
  | cons rule rules ih =>
    obtain ⟨herror, hok⟩ := ih ((runRule maxPerRule rule unit).2 ++ cancelled)
    by_cases h : token ∈ cancelled
    · refine ⟨fun _ => ?_, fun hn => absurd (.inl h) hn⟩
      simp [analyze, h]
    · have heq : (analyze maxPerRule unit token cancelled (rule :: rules)).1 =
          (analyze maxPerRule unit token ((runRule maxPerRule rule unit).2 ++ cancelled) rules).1.map
            ((runRule maxPerRule rule unit).1 ++ ·) := by
        simp [analyze, h]
      rw [calledOff_cons maxPerRule, heq]
      refine ⟨fun hc => by rw [herror hc]; rfl, fun hc => ?_⟩
      rw [hok hc, runRule_fst, List.flatMap_cons]
      rfl

end Engine

namespace Schedule

variable {job : Job} {cancelled : List CancelToken} {s s' : State}

/-- The diagnostics of an analysis that nothing calls off. -/
def Job.complete (job : Job) : List Diagnostic :=
  job.rules.flatMap (Rule.kept job.options.maxPerRule job.unit)

/-- The token of the analysis is called off at the start, or by a rule that applies. -/
def Job.CalledOff (job : Job) (cancelled : List CancelToken) : Prop :=
  Engine.CalledOff job.unit job.token cancelled job.rules

/-! ### What a step preserves -/

/-- What a task's progress says of its rule and of the tokens called off so far. -/
def Task.Sound (job : Job) (cancelled : List CancelToken) (task : Task) : Prop :=
  match task.progress with
  | .waiting => True
  | .running left => left ⊆ job.cancelsOf task.rule ∧
      ∀ token ∈ job.cancelsOf task.rule, token ∈ left ∨ token ∈ cancelled
  | .skipped => job.token ∈ cancelled ∧ job.options.parallel
  | .done found => found = job.foundBy task.rule ∧ job.cancelsOf task.rule ⊆ cancelled

theorem Task.Sound.mono {cancelled' : List CancelToken} {task : Task} (h : task.Sound job cancelled)
    (hsub : cancelled ⊆ cancelled') : task.Sound job cancelled' := by
  obtain ⟨rule, progress⟩ := task
  cases progress with
  | waiting => trivial
  | running left => exact ⟨h.1, fun token ht => (h.2 token ht).imp_right fun hc => hsub hc⟩
  | skipped => exact ⟨hsub h.1, h.2⟩
  | done found => exact ⟨h.1, fun token ht => hsub (h.2 ht)⟩

/-- The invariant of an analysis that started with the tokens `first` called off. -/
structure Inv (job : Job) (first : List CancelToken) (s : State) : Prop where
  rules : s.tasks.map Task.rule = job.rules
  kept : first ⊆ s.cancelled
  tasks : ∀ task ∈ s.tasks, task.Sound job s.cancelled
  error : s.answer = some (.error .cancelled) → job.token ∈ s.cancelled
  ok : ∀ found, s.answer = some (.ok found) → found = job.complete ∧ ¬ job.CalledOff first

variable {first : List CancelToken}

theorem Inv.start (job : Job) (first : List CancelToken) : Inv job first (job.start first) where
  rules := by simp [Job.start, Function.comp_def]
  kept := fun _ h => h
  tasks := by
    intro task h
    obtain ⟨rule, -, rfl⟩ := List.mem_map.1 h
    trivial
  error := by simp [Job.start]
  ok := by simp [Job.start]

/-- While there is no answer, a task may move on, and tokens may be called off. -/
theorem Inv.move {cancelled' : List CancelToken} {before after : List Task} {rule : Rule}
    {progress progress' : Progress}
    (h : Inv job first ⟨cancelled, before ++ ⟨rule, progress⟩ :: after, none⟩)
    (hsub : cancelled ⊆ cancelled') (hnew : Task.Sound job cancelled' ⟨rule, progress'⟩) :
    Inv job first ⟨cancelled', before ++ ⟨rule, progress'⟩ :: after, none⟩ where
  rules := by simpa using h.rules
  kept := fun _ ht => hsub (h.kept ht)
  tasks := by
    intro task ht
    rcases List.mem_append.1 ht with ht | ht
    · exact (h.tasks task (List.mem_append_left _ ht)).mono hsub
    rcases List.mem_cons.1 ht with rfl | ht
    · exact hnew
    · exact (h.tasks task (List.mem_append_right _ (List.mem_cons_of_mem _ ht))).mono hsub
  error := by simp
  ok := by simp

/-- If every task is settled and the token is live, nothing was skipped. -/
theorem gather_eq_ok {tasks : List Task} (hsound : ∀ task ∈ tasks, task.Sound job cancelled)
    (hsettled : ∀ task ∈ tasks, task.progress.isSettled) (hlive : job.token ∉ cancelled) :
    gather tasks = .ok ((tasks.map Task.rule).flatMap job.foundBy) := by
  induction tasks with
  | nil => rfl
  | cons task tasks ih =>
    obtain ⟨ht, hsound'⟩ := List.forall_mem_cons.1 hsound
    obtain ⟨hs, hsettled'⟩ := List.forall_mem_cons.1 hsettled
    obtain ⟨rule, progress⟩ := task
    cases progress with
    | waiting => simp [Progress.isSettled] at hs
    | running left => simp [Progress.isSettled] at hs
    | skipped => exact absurd ht.1 hlive
    | done found =>
      obtain rfl : found = job.foundBy rule := ht.1
      simp only [gather, ih hsound' hsettled']
      rfl

theorem flatMap_foundBy (job : Job) : job.rules.flatMap job.foundBy = job.complete :=
  List.flatMap_congr fun rule _ => Engine.runRule_fst rule

/-- The last look finds the token called off, or it gives the complete list and nothing has called
the analysis off. -/
theorem Inv.conclusion {tasks : List Task} (h : Inv job first ⟨cancelled, tasks, none⟩)
    (hsettled : ∀ task ∈ tasks, task.progress.isSettled) :
    (job.token ∈ cancelled ∧ job.conclusion cancelled tasks = .error .cancelled) ∨
      (job.conclusion cancelled tasks = .ok job.complete ∧ ¬ job.CalledOff first) := by
  by_cases hlive : job.token ∈ cancelled
  · exact .inl ⟨hlive, by simp [Job.conclusion, hlive]⟩
  refine .inr ⟨?_, ?_⟩
  · have hgather := gather_eq_ok h.tasks hsettled hlive
    rw [h.rules, flatMap_foundBy] at hgather
    simp [Job.conclusion, hlive, hgather]
  · rintro (hfirst | ⟨rule, hrule, hcancels⟩)
    · exact hlive (h.kept hfirst)
    -- the rule was not skipped, so it is done and has called off its tokens
    · rw [← h.rules] at hrule
      obtain ⟨⟨_, progress⟩, htask, rfl⟩ := List.mem_map.1 hrule
      have hsound := h.tasks _ htask
      have hs := hsettled _ htask
      cases progress with
      | waiting => simp [Progress.isSettled] at hs
      | running left => simp [Progress.isSettled] at hs
      | skipped => exact hlive hsound.1
      | done found => exact hlive (hsound.2 (Engine.mem_runRule_snd.2 hcancels))

theorem Inv.step {actor : Actor} (h : Inv job first s) (hstep : Step job s actor s') :
    Inv job first s' := by
  cases hstep with
  | begin live turn => exact h.move (fun _ ht => ht) ⟨fun _ ht => ht, fun _ ht => .inl ht⟩
  | skip late parallel => exact h.move (fun _ ht => ht) ⟨late, parallel⟩
  | stop late parallel turn =>
    exact ⟨h.rules, h.kept, h.tasks, fun _ => late, fun _ heq => by cases heq⟩
  | @callOff cancelled left before after rule token =>
    obtain ⟨hleft, hcancels⟩ : Task.Sound job cancelled ⟨rule, .running (token :: left)⟩ :=
      h.tasks _ (by simp)
    refine h.move (List.subset_cons_self ..) ⟨fun _ ht => hleft (List.mem_cons_of_mem _ ht), ?_⟩
    intro t ht
    rcases hcancels t ht with hmem | hmem
    · rcases List.mem_cons.1 hmem with rfl | hmem
      · exact .inr (List.mem_cons_self ..)
      · exact .inl hmem
    · exact .inr (List.mem_cons_of_mem _ hmem)
  | @finish cancelled before after rule =>
    obtain ⟨-, hcancels⟩ : Task.Sound job cancelled ⟨rule, .running []⟩ := h.tasks _ (by simp)
    refine h.move (fun _ ht => ht) ⟨rfl, fun t ht => ?_⟩
    exact (hcancels t ht).resolve_left List.not_mem_nil
  | conclude settled =>
    rcases h.conclusion settled with ⟨hcancelled, heq⟩ | ⟨heq, hnot⟩
    · exact ⟨h.rules, h.kept, h.tasks, fun _ => hcancelled, fun _ h' => by simp [heq] at h'⟩
    · refine ⟨h.rules, h.kept, h.tasks, fun h' => by simp [heq] at h', fun found h' => ?_⟩
      exact ⟨by simpa [heq] using h'.symm, hnot⟩
  | cancel token =>
    have hsub : s.cancelled ⊆ token :: s.cancelled := List.subset_cons_self ..
    exact ⟨h.rules, fun _ ht => hsub (h.kept ht), fun task ht => (h.tasks task ht).mono hsub,
      fun h' => hsub (h.error h'), h.ok⟩

theorem Run.inv {trace : List Actor} (h : Run job first trace s) : Inv job first s := by
  induction h with
  | nil => exact .start job first
  | cons _ hstep ih => exact ih.step hstep

/-! ### Who called the token off -/

/-- Unless somebody outside does it, only a rule that applies calls off the token. -/
theorem calledOff_of_step {actor : Actor} (h : Inv job first s) (hstep : Step job s actor s')
    (hactor : actor ≠ .outside job.token) (hs : job.token ∈ s.cancelled → job.CalledOff first) :
    job.token ∈ s'.cancelled → job.CalledOff first := by
  cases hstep with
  | begin | skip | stop | finish | conclude => exact hs
  | @callOff cancelled left before after rule token =>
    intro hmem
    rcases List.mem_cons.1 hmem with rfl | hmem
    · have hsound : Task.Sound job cancelled ⟨rule, .running (job.token :: left)⟩ :=
        h.tasks _ (by simp)
      have hrule : rule ∈ job.rules := by rw [← h.rules]; simp
      exact .inr ⟨rule, hrule, Engine.mem_runRule_snd.1 (hsound.1 (List.mem_cons_self ..))⟩
    · exact hs hmem
  | cancel token =>
    intro hmem
    rcases List.mem_cons.1 hmem with rfl | hmem
    · exact absurd rfl hactor
    · exact hs hmem

theorem Run.calledOff {trace : List Actor} (h : Run job first trace s)
    (houtside : .outside job.token ∉ trace) : job.token ∈ s.cancelled → job.CalledOff first := by
  induction h with
  | nil => exact .inl
  | cons hrun hstep ih =>
    have hrest := fun h => houtside (List.mem_cons_of_mem _ h)
    exact calledOff_of_step hrun.inv hstep (fun h => houtside (h ▸ List.mem_cons_self ..)) (ih hrest)

/-! ### There is an answer in the end -/

/-- Rules that run one after the other are never skipped, so behind settled tasks a turn comes. -/
theorem Inv.turn {before after : List Task} {answer : Option (Except Cancelled (List Diagnostic))}
    (h : Inv job first ⟨cancelled, before ++ after, answer⟩)
    (hsettled : ∀ task ∈ before, task.progress.isSettled) : job.Turn before := by
  cases hparallel : job.options.parallel with
  | true => exact .inl hparallel
  | false =>
    refine .inr fun task ht => ?_
    have hsound := h.tasks task (List.mem_append_left _ ht)
    have hs := hsettled task ht
    obtain ⟨rule, progress⟩ := task
    cases progress with
    | waiting => exact hs
    | running left => exact hs
    | skipped => exact absurd (hparallel.symm.trans hsound.2) Bool.false_ne_true
    | done found => rfl

/-- Until there is an answer, the analysis can take a step: the first task that is not settled moves
on, or all are settled and the analysis concludes. -/
theorem Inv.exists_step (h : Inv job first s) (hnone : s.answer = none) :
    ∃ s', Step job s .analysis s' := by
  obtain ⟨cancelled, tasks, answer⟩ := s
  obtain rfl : answer = none := hnone
  cases hfind : tasks.find? (fun task => !task.progress.isSettled) with
  | none =>
    refine ⟨_, .conclude fun task ht => ?_⟩
    simpa using List.find?_eq_none.1 hfind task ht
  | some task =>
    obtain ⟨hopen, before, after, rfl, hbefore⟩ := List.find?_eq_some_iff_append.1 hfind
    obtain ⟨rule, progress⟩ := task
    cases progress with
    | skipped => simp [Progress.isSettled] at hopen
    | done found => simp [Progress.isSettled] at hopen
    | running left =>
      cases left with
      | nil => exact ⟨_, .finish⟩
      | cons token left => exact ⟨_, .callOff token⟩
    | waiting =>
      have hturn : job.Turn before := h.turn (by simpa using hbefore)
      by_cases hlate : job.token ∈ cancelled
      · cases hparallel : job.options.parallel with
        | true => exact ⟨_, .skip hlate hparallel⟩
        | false => exact ⟨_, .stop hlate hparallel hturn⟩
      · exact ⟨_, .begin hlate hturn⟩

/-- How many steps the analysis may still take with a task. -/
def Task.work (job : Job) (task : Task) : Nat :=
  match task.progress with
  | .waiting => (job.cancelsOf task.rule).length + 2
  | .running left => left.length + 1
  | .skipped => 0
  | .done _ => 0

/-- How many steps the analysis may still take. -/
def State.work (job : Job) (s : State) : Nat :=
  (s.tasks.map (Task.work job)).sum + if s.answer.isNone then 1 else 0

theorem work_move {cancelled' : List CancelToken} {before after : List Task} {rule : Rule}
    {progress progress' : Progress} (h : Task.work job ⟨rule, progress'⟩ < Task.work job ⟨rule, progress⟩) :
    State.work job ⟨cancelled', before ++ ⟨rule, progress'⟩ :: after, none⟩ <
      State.work job ⟨cancelled, before ++ ⟨rule, progress⟩ :: after, none⟩ := by
  simp only [State.work, List.map_append, List.map_cons, List.sum_append, List.sum_cons]
  omega

theorem work_step (hstep : Step job s .analysis s') : s'.work job < s.work job := by
  cases hstep with
  | begin => exact work_move (Nat.lt_succ_self _)
  | skip => exact work_move (Nat.succ_pos _)
  | callOff token => exact work_move (Nat.lt_succ_self _)
  | finish => exact work_move (Nat.succ_pos _)
  | stop | conclude => simp [State.work]

/-- An analysis takes only so many steps, whoever calls off tokens in between. -/
theorem Run.count_add_work_le {trace : List Actor} (h : Run job first trace s) :
    trace.count .analysis + s.work job ≤ (job.start first).work job := by
  induction h with
  | nil => simp
  | @cons trace s s' actor _ hstep ih =>
    cases actor with
    | analysis =>
      have := work_step hstep
      rw [List.count_cons_self]
      omega
    | outside token =>
      cases hstep
      rw [List.count_cons_of_ne (by simp)]
      exact ih

theorem work_start (job : Job) (first : List CancelToken) : (job.start first).work job =
    (job.rules.map fun rule => (job.cancelsOf rule).length + 2).sum + 1 := by
  simp only [State.work, Job.start, List.map_map]
  rfl

/-- An analysis that is not called off gives the complete list, never a part of it. If nobody outside
calls off its token, neither the schedule nor the mode matters: it is called off exactly if the token
was so at the start or some rule that applies calls it off, as when the rules run one after the
other. There is an answer in the end: until then the analysis can go on, and it takes a bounded
number of steps. -/
theorem run_answers_completely (job : Job) (first : List CancelToken) {trace : List Actor} {s : State}
    (h : Run job first trace s) :
    (∀ answer, s.answer = some answer → answer = .error .cancelled ∨ answer = .ok job.complete) ∧
    (.outside job.token ∉ trace → ∀ answer, s.answer = some answer →
      (answer = .error .cancelled ↔ job.CalledOff first) ∧
      answer = (Engine.analyze job.options.maxPerRule job.unit job.token first job.rules).1) ∧
    (s.answer = none → ∃ s', Step job s .analysis s') ∧
    trace.count .analysis ≤ (job.rules.map fun rule => (job.cancelsOf rule).length + 2).sum + 1 := by
  have hinv := h.inv
  refine ⟨fun answer hanswer => ?_, fun houtside answer hanswer => ?_, hinv.exists_step, ?_⟩
  · rcases answer with ⟨⟨⟩⟩ | found
    · exact .inl rfl
    · exact .inr (congrArg _ (hinv.ok found hanswer).1)
  · obtain ⟨herror, hok⟩ :=
      Engine.analyze_fst job.options.maxPerRule job.unit job.token first job.rules
    rcases answer with ⟨⟨⟩⟩ | found
    · have hcalled := h.calledOff houtside (hinv.error hanswer)
      exact ⟨iff_of_true rfl hcalled, (herror hcalled).symm⟩
    · obtain ⟨rfl, hnot⟩ := hinv.ok found hanswer
      exact ⟨iff_of_false (by simp) hnot, (hok hnot).symm⟩
  · have := h.count_add_work_le
    rw [work_start] at this
    omega

/-- Of two rules side by side the second calls off their analysis before the turn of the first. -/
theorem run_answers_completely_skipping : ∃ (job : Job) (trace : List Actor) (s : State),
    Run job [] trace s ∧ .outside job.token ∉ trace ∧ s.answer = some (.error .cancelled) ∧
      job.CalledOff [] := by
  let quiet : Rule := ⟨"quiet", [], fun _ => true, fun _ => ⟨.ok [], []⟩⟩
  let caller : Rule := ⟨"caller", [], fun _ => true, fun _ => ⟨.ok [], [0]⟩⟩
  let job : Job := ⟨⟨1, true⟩, ⟨"file:///A.java", "", none, [], [], []⟩, 0, [quiet, caller]⟩
  have h₁ := Run.cons Run.nil
    (@Step.begin job [] [⟨quiet, .waiting⟩] [] caller List.not_mem_nil (.inl rfl))
  have h₂ := Run.cons h₁ (@Step.callOff job [] [] [⟨quiet, .waiting⟩] [] caller 0)
  have h₃ := Run.cons h₂ (@Step.skip job [0] [] [⟨caller, .running []⟩] quiet (List.mem_cons_self ..) rfl)
  have h₄ := Run.cons h₃ (@Step.finish job [0] [⟨quiet, .skipped⟩] [] caller)
  have h₅ := Run.cons h₄ (.conclude (by simp [Progress.isSettled]))
  have houtside : .outside job.token ∉ [Actor.analysis, .analysis, .analysis, .analysis, .analysis] := by
    simp
  exact ⟨job, _, _, h₅, houtside, rfl,
    (((run_answers_completely job [] h₅).2.1 houtside _ rfl).1).1 rfl⟩

end Schedule

end JakartaCheck
