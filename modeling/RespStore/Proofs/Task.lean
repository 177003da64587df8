import RespStore.Task

/-!
# What tasks end with

A task ends with different values when its calls are answered differently. `Task.Ends` says
that it can end with a value, `Task.Always` that whatever it ends with has a property; both
look only at answers that are admitted. `Task.always_iff` connects the two.

Properties are proved along the way a task is put together, so there is one rule for each way
of doing that. `Task.Yields` is for work that may fail: it looks at the value of work that
succeeds.
-/

namespace RespStore

/-- Which answers a call can get. -/
abbrev Answers := (request : Call) → request.Answer → Prop

namespace Task

variable {α β : Type} {answers : Answers}

/-- Whether a task can end with a value. -/
inductive Ends (answers : Answers) : Task α → α → Prop where
  /-- Nothing is left to do. -/
  | done {value : α} : Ends answers (.done value) value
  /-- A call gets an answer that is admitted. -/
  | call {owned : Registry} {request : Call} {next : request.Answer → Task α}
      {answer : request.Answer} {value : α} (hanswer : answers request answer)
      (hnext : Ends answers (next answer) value) : Ends answers (.call owned request next) value
  /-- A computation is finished. -/
  | aside {next : Task α} {value : α} (hnext : Ends answers next value) :
      Ends answers (.aside next) value

/-- Whether whatever a task ends with has a property. -/
def Always (answers : Answers) (post : α → Prop) : Task α → Prop
  | .done value => post value
  | .call _ request next =>
    ∀ answer, answers request answer → (next answer).Always answers post
  | .aside next => next.Always answers post

/-- Whatever a task can end with has a property exactly if the task always ends so. The induction is
on the task, with one case for each thing that it can do next. -/
theorem always_iff {post : α → Prop} {task : Task α} :
    task.Always answers post ↔ ∀ value, task.Ends answers value → post value := by
  constructor
  · intro h value hends
    induction hends with
    | done => exact h
    | call hanswer _ ih => exact ih (h _ hanswer)
    | aside _ ih => exact ih h
  · intro h
    induction task with
    | done value => exact h value .done
    | call owned request next ih =>
        intro answer hanswer
        exact ih answer fun value hends => h value (.call hanswer hends)
    | aside next ih => exact ih fun value hends => h value (.aside hends)

/-- A property may be weakened, and fewer answers may be admitted. -/
theorem Always.mono {answers' : Answers} {post post' : α → Prop} {task : Task α}
    (h : task.Always answers post) (hanswers : ∀ request answer, answers' request answer →
      answers request answer) (hpost : ∀ value, post value → post' value) :
    task.Always answers' post' := by
  induction task with
  | done value => exact hpost value h
  | call owned request next ih =>
      intro answer hanswer
      exact ih answer (h answer (hanswers request answer hanswer))
  | aside next ih => exact ih h

/-- A property of what a task ends with may be weakened. -/
theorem Always.imp {post post' : α → Prop} {task : Task α} (h : task.Always answers post)
    (hpost : ∀ value, post value → post' value) : task.Always answers post' :=
  h.mono (fun _ _ hanswer => hanswer) hpost

/-- A task that goes on with another one ends as the other one does, with what the first one ended
with. -/
theorem always_bind {post : β → Prop} {task : Task α} {f : α → Task β} :
    (task >>= f).Always answers post ↔
      task.Always answers fun value => (f value).Always answers post := by
  change (task.bind f).Always answers post ↔ _
  induction task with
  | done value => exact Iff.rfl
  | call owned request next ih =>
      exact forall_congr' fun answer => imp_congr Iff.rfl (ih answer)
  | aside next ih => exact ih

/-- A function of what a task ends with has a property if every value of the task gives it one. -/
theorem always_map {post : β → Prop} {task : Task α} {f : α → β} :
    (f <$> task).Always answers post ↔ task.Always answers fun value => post (f value) :=
  always_bind

/-- A call ends with one of the answers that it can get. -/
theorem always_ask {request : Call} {post : request.Answer → Prop} :
    (ask request).Always answers post ↔ ∀ answer, answers request answer → post answer :=
  Iff.rfl

/-! ### Work that may fail -/

variable {ε : Type}

/-- Whether the value of work that succeeds has a property. -/
def Yields (answers : Answers) (post : α → Prop) (work : ExceptT ε Task α) : Prop :=
  work.run.Always answers fun result => ∀ value, result = .ok value → post value

/-- Work that does nothing succeeds with its value. -/
theorem yields_pure {post : α → Prop} {value : α} (h : post value) :
    Yields answers post (pure value : ExceptT ε Task α) := by
  intro value' heq
  exact Except.ok.inj heq ▸ h

/-- Work that fails has no value that could lack the property. -/
theorem yields_throw {post : α → Prop} (e : ε) :
    Yields answers post (throw e : ExceptT ε Task α) := by
  intro value heq
  exact nomatch heq

/-- Work in two parts succeeds as its second part does, with what the first one succeeded with. -/
theorem yields_bind {post : β → Prop} {mid : α → Prop} {work : ExceptT ε Task α}
    {f : α → ExceptT ε Task β} (h : Yields answers mid work)
    (hf : ∀ value, mid value → Yields answers post (f value)) :
    Yields answers post (work >>= f) := by
  refine always_bind.mpr (h.imp fun result hresult => ?_)
  cases result with
  | error e => exact fun value heq => nomatch heq
  | ok value => exact hf value (hresult value rfl)

/-- A task, seen as work that cannot fail, succeeds with what the task ends with. -/
theorem yields_lift {post : α → Prop} {task : Task α} (h : task.Always answers post) :
    Yields answers post (ExceptT.lift task : ExceptT ε Task α) := by
  refine always_map.mpr (h.imp fun value hvalue value' heq => ?_)
  exact Except.ok.inj heq ▸ hvalue

/-- Work is always good for nothing in particular. -/
theorem yields_true (work : ExceptT ε Task α) : Yields answers (fun _ => True) work := by
  refine always_iff.mpr fun _ _ _ _ => trivial

end Task

end RespStore
