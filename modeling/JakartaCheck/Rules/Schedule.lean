import JakartaCheck.Rules.Engine

/-!
# Rules side by side

`Engine.analyze` runs rules one after the other, and nobody but rules calls tokens off. Here an
analysis is taken apart into the steps between which something else may happen. A rule's turn comes
and the token of the analysis is looked at; the rule runs and calls off its tokens one by one; it
ends; and when no rule is left the token is looked at once more.

Rules that run side by side take these steps in any order, and a rule whose turn comes too late is
skipped. Otherwise a turn comes when all rules before are done, and the first one that comes too late
ends the analysis. Somebody outside may call off any token at any moment.
-/

namespace JakartaCheck.Schedule

/-- What an analysis is asked to do. -/
structure Job where
  options : EngineOptions
  unit : CompilationUnit
  token : CancelToken
  rules : List Rule

/-- How far an analysis is with one rule. -/
inductive Progress where
  | waiting
  /-- The rule has these tokens left to call off. -/
  | running (left : List CancelToken)
  /-- The token of the analysis had been called off when the rule's turn came. -/
  | skipped
  | done (found : List Diagnostic)

namespace Progress

def isDone : Progress → Bool
  | .done _ => true
  | _ => false

/-- Nothing more happens to the rule. -/
def isSettled : Progress → Bool
  | .done _ => true
  | .skipped => true
  | _ => false

end Progress

structure Task where
  rule : Rule
  progress : Progress

/-- An analysis under way. -/
structure State where
  /-- The tokens called off so far. -/
  cancelled : List CancelToken
  /-- The rules in the order in which they report. -/
  tasks : List Task
  answer : Option (Except Cancelled (List Diagnostic))

namespace Job

/-- The tokens that a rule calls off while it runs. -/
def cancelsOf (job : Job) (rule : Rule) : List CancelToken :=
  (Engine.runRule job.options.maxPerRule rule job.unit).2

/-- The diagnostics that a rule leaves behind. -/
def foundBy (job : Job) (rule : Rule) : List Diagnostic :=
  (Engine.runRule job.options.maxPerRule rule job.unit).1

/-- No turn has come yet. -/
def start (job : Job) (cancelled : List CancelToken) : State :=
  ⟨cancelled, job.rules.map (⟨·, .waiting⟩), none⟩

/-- The turn of the rule behind `before` may come. -/
def Turn (job : Job) (before : List Task) : Prop :=
  job.options.parallel ∨ ∀ task ∈ before, task.progress.isDone

end Job

/-- All diagnostics in order, unless a rule was skipped. -/
def gather : List Task → Except Cancelled (List Diagnostic)
  | [] => .ok []
  | task :: tasks =>
    match task.progress with
    | .done found => (gather tasks).map (found ++ ·)
    | _ => .error .cancelled

/-- The answer after the last look at the token. -/
def Job.conclusion (job : Job) (cancelled : List CancelToken) (tasks : List Task) :
    Except Cancelled (List Diagnostic) :=
  if cancelled.contains job.token then .error .cancelled else gather tasks

/-- Who takes a step. -/
inductive Actor where
  | analysis
  /-- Somebody who calls off a token from outside. -/
  | outside (token : CancelToken)
deriving DecidableEq, Repr

/-- One step of an analysis. -/
inductive Step (job : Job) : State → Actor → State → Prop where
  | begin {cancelled : List CancelToken} {before after : List Task} {rule : Rule}
      (live : job.token ∉ cancelled) (turn : job.Turn before) :
      Step job ⟨cancelled, before ++ ⟨rule, .waiting⟩ :: after, none⟩ .analysis
        ⟨cancelled, before ++ ⟨rule, .running (job.cancelsOf rule)⟩ :: after, none⟩
  | skip {cancelled : List CancelToken} {before after : List Task} {rule : Rule}
      (late : job.token ∈ cancelled) (parallel : job.options.parallel = true) :
      Step job ⟨cancelled, before ++ ⟨rule, .waiting⟩ :: after, none⟩ .analysis
        ⟨cancelled, before ++ ⟨rule, .skipped⟩ :: after, none⟩
  | stop {cancelled : List CancelToken} {before after : List Task} {rule : Rule}
      (late : job.token ∈ cancelled) (parallel : job.options.parallel = false)
      (turn : job.Turn before) :
      Step job ⟨cancelled, before ++ ⟨rule, .waiting⟩ :: after, none⟩ .analysis
        ⟨cancelled, before ++ ⟨rule, .waiting⟩ :: after, some (.error .cancelled)⟩
  | callOff {cancelled left : List CancelToken} {before after : List Task} {rule : Rule}
      (token : CancelToken) :
      Step job ⟨cancelled, before ++ ⟨rule, .running (token :: left)⟩ :: after, none⟩ .analysis
        ⟨token :: cancelled, before ++ ⟨rule, .running left⟩ :: after, none⟩
  | finish {cancelled : List CancelToken} {before after : List Task} {rule : Rule} :
      Step job ⟨cancelled, before ++ ⟨rule, .running []⟩ :: after, none⟩ .analysis
        ⟨cancelled, before ++ ⟨rule, .done (job.foundBy rule)⟩ :: after, none⟩
  | conclude {cancelled : List CancelToken} {tasks : List Task}
      (settled : ∀ task ∈ tasks, task.progress.isSettled) :
      Step job ⟨cancelled, tasks, none⟩ .analysis
        ⟨cancelled, tasks, some (job.conclusion cancelled tasks)⟩
  | cancel {s : State} (token : CancelToken) :
      Step job s (.outside token) { s with cancelled := token :: s.cancelled }

/-- The states that an analysis can reach, with who took the steps, the latest first. -/
inductive Run (job : Job) (cancelled : List CancelToken) : List Actor → State → Prop where
  | nil : Run job cancelled [] (job.start cancelled)
  | cons {trace : List Actor} {s s' : State} {actor : Actor} (run : Run job cancelled trace s)
      (step : Step job s actor s') : Run job cancelled (actor :: trace) s'

end JakartaCheck.Schedule
