import Mathlib.Data.List.Perm.Basic
import Taraxacum.Event

open json exec

namespace taraxacum

inductive HTTP_METHOD where
  | GET
  | POST
  | PUT
  | DELETE
  deriving DecidableEq

/-- An operation of `Uservice_Interface` with its arguments. -/
inductive Operation where
  | Answer (port threads : Int32)
  | AnswerRoute (port threads : Int32) (route : Bytes) (http_method : HTTP_METHOD)
  | Measure (data : Bytes)
  | Log
  | Circuit_Break
  deriving DecidableEq

/-- What happens while a stack of providers handles an operation: a layer prints a
    line, the innermost microservice is called, or it does something itself. -/
inductive Effect where
  | own (text : Bytes)
  | call (op : Operation)
  | inner (event : Event)
  deriving DecidableEq

def Effect.isCall : Effect → Bool
  | .call _ => true
  | _ => false

abbrev Handling := Exec Effect Exception

def own (text : Bytes) : Handling Unit := Exec.emit (.own text)

def owns : List Bytes → Handling Unit
  | [] => pure ()
  | text :: texts => do
    own text
    owns texts

/-- Texts printed in two groups are printed one group after the other. -/
theorem owns_append (texts texts' : List Bytes) :
    owns (texts ++ texts') = (do owns texts; owns texts') := by
  induction texts with
  | nil => rfl
  | cons text texts ih => simp only [List.cons_append, owns, ih, bind_assoc]

/-- Texts that layers print are as many events, in order. -/
theorem owns_events (texts : List Bytes) : (owns texts).events = texts.map .own := by
  induction texts with
  | nil => rfl
  | cons text texts ih => simp [owns, own, ih]

/-- Printing is taken never to fail. -/
theorem owns_outcome (texts : List Bytes) : (owns texts).outcome = .returned () := by
  induction texts with
  | nil => rfl
  | cons text texts ih => simp [owns, own, ih]

/-- `AnswerRoute` is the overload of `Answer` for a route. -/
structure Uservice_Interface where
  Answer : Int32 → Int32 → Handling Unit
  AnswerRoute : Int32 → Int32 → Bytes → HTTP_METHOD → Handling Unit
  Measure : Bytes → Handling Unit
  Log : Handling Unit
  Circuit_Break : Handling Unit

def Uservice_Interface.invoke (usvc : Uservice_Interface) : Operation → Handling Unit
  | .Answer port threads => usvc.Answer port threads
  | .AnswerRoute port threads route http_method => usvc.AnswerRoute port threads route http_method
  | .Measure data => usvc.Measure data
  | .Log => usvc.Log
  | .Circuit_Break => usvc.Circuit_Break

/-- The innermost microservice: any implementation of the operations, in whatever
    state it is in, with a record of the call. -/
def innermost (impl : Operation → Call Unit) (op : Operation) : Handling Unit := do
  Exec.emit (.call op)
  ⟨(impl op).events.map .inner, (impl op).outcome⟩

/-- A class derived from `Uservice`, by what its methods do. -/
def Uservice (impl : Operation → Call Unit) : Uservice_Interface where
  Answer port threads := innermost impl (.Answer port threads)
  AnswerRoute port threads route http_method := innermost impl (.AnswerRoute port threads route http_method)
  Measure data := innermost impl (.Measure data)
  Log := innermost impl .Log
  Circuit_Break := innermost impl .Circuit_Break

/-- The methods of `Uservice` itself. -/
def Uservice.methods : Operation → Call Unit
  | .Answer port _ => cout (lit "Uservice Answering on Port " ++ lit (toString port) ++ lit "\n")
  | .AnswerRoute port _ route _ =>
    cout (lit "Uservice Answering on Port " ++ lit (toString port) ++ lit "route is" ++ cstr route ++ lit "\n")
  | .Measure _ => cout (lit " Uservice Measure\n")
  | .Log => cout (lit " Uservice Log \n")
  | .Circuit_Break => cout (lit " Uservice Circuite Breaker \n")

def Provider (usvc : Uservice_Interface) : Uservice_Interface where
  Answer port threads := usvc.Answer port threads
  AnswerRoute port threads route http_method := usvc.AnswerRoute port threads route http_method
  Measure data := do
    own (lit "I'm in Provider\n")
    usvc.Measure data
  Log := usvc.Log
  Circuit_Break := usvc.Circuit_Break

def CircuitBreaker (usvc : Uservice_Interface) : Uservice_Interface :=
  { Provider usvc with
    Circuit_Break := do
      (Provider usvc).Circuit_Break
      own (lit "CircuitBreaker here\n") }

def Logging (usvc : Uservice_Interface) : Uservice_Interface :=
  { Provider usvc with
    Log := do
      (Provider usvc).Log
      own (lit "Logging here \n") }

def Log4cppProvider (usvc : Uservice_Interface) : Uservice_Interface :=
  { Provider usvc with
    Log := do
      (Provider usvc).Log
      own (lit "Logging here \n") }

def Metrics (usvc : Uservice_Interface) : Uservice_Interface :=
  { Provider usvc with
    Measure := fun data => (Provider usvc).Measure data }

/-- The classes a stack is made of. -/
inductive ProviderClass where
  | CircuitBreaker
  | Logging
  | Log4cppProvider
  | Metrics
  deriving DecidableEq

namespace ProviderClass

def construct : ProviderClass → Uservice_Interface → Uservice_Interface
  | .CircuitBreaker => taraxacum.CircuitBreaker
  | .Logging => taraxacum.Logging
  | .Log4cppProvider => taraxacum.Log4cppProvider
  | .Metrics => taraxacum.Metrics

def logs : ProviderClass → Bool
  | .Logging | .Log4cppProvider => true
  | _ => false

def breaks : ProviderClass → Bool
  | .CircuitBreaker => true
  | _ => false

end ProviderClass

/-- The first class is the outermost; the last argument is the microservice. -/
def AddProviders_shared (usvc : Uservice_Interface) : List ProviderClass → Uservice_Interface
  | [] => usvc
  | T :: Args => T.construct (AddProviders_shared usvc Args)

/-- What the layers print before the inner call. -/
def before (layers : List ProviderClass) : Operation → List Bytes
  | .Measure _ => List.replicate layers.length (lit "I'm in Provider\n")
  | _ => []

/-- What the layers print after the inner call. -/
def after (layers : List ProviderClass) : Operation → List Bytes
  | .Log => List.replicate (layers.countP ProviderClass.logs) (lit "Logging here \n")
  | .Circuit_Break => List.replicate (layers.countP ProviderClass.breaks) (lit "CircuitBreaker here\n")
  | _ => []

/-- What the outermost layer prints comes before all that is inside it. -/
theorem before_cons (T : ProviderClass) (layers : List ProviderClass) (op : Operation) :
    before (T :: layers) op = before [T] op ++ before layers op := by
  cases op with
  | Measure data => exact List.replicate_succ
  | Answer | AnswerRoute | Log | Circuit_Break => rfl

/-- The layers print on the way out, the outermost last. -/
theorem after_cons (T : ProviderClass) (layers : List ProviderClass) (op : Operation) :
    after (T :: layers) op = after layers op ++ after [T] op := by
  cases op with
  | Log => simp only [after, List.countP_cons, List.countP_nil, List.replicate_append_replicate, Nat.zero_add]
  | Circuit_Break =>
    simp only [after, List.countP_cons, List.countP_nil, List.replicate_append_replicate, Nat.zero_add]
  | Answer | AnswerRoute | Measure => rfl

/-- One layer forwards every operation once, between what it prints itself. -/
theorem construct_invoke (T : ProviderClass) (usvc : Uservice_Interface) (op : Operation) :
    (T.construct usvc).invoke op =
      (do
        owns (before [T] op)
        usvc.invoke op
        owns (after [T] op)) := by
  cases T <;> cases op <;>
    simp [ProviderClass.construct, Uservice_Interface.invoke, before, after, owns, CircuitBreaker, Logging,
      Log4cppProvider, Metrics, Provider, ProviderClass.logs, ProviderClass.breaks]

/-- `Uservice` hands every operation to its implementation. -/
theorem uservice_invoke (impl : Operation → Call Unit) (op : Operation) :
    (Uservice impl).invoke op = innermost impl op := by
  cases op <;> rfl

/-- A stack calls the innermost microservice once, between what all its layers print. -/
theorem stack_invoke (impl : Operation → Call Unit) (layers : List ProviderClass) (op : Operation) :
    (AddProviders_shared (Uservice impl) layers).invoke op =
      (do
        owns (before layers op)
        innermost impl op
        owns (after layers op)) := by
  induction layers with
  | nil =>
    rw [AddProviders_shared, uservice_invoke]
    cases op <;> simp [before, after, owns]
  | cons T layers ih =>
    rw [AddProviders_shared, construct_invoke, ih, before_cons T layers, after_cons T layers]
    simp only [owns_append, bind_assoc]

/-- Which lines come before the call does not depend on the order of the layers. -/
theorem before_perm {layers layers' : List ProviderClass} (hperm : layers.Perm layers') (op : Operation) :
    before layers op = before layers' op := by
  cases op with
  | Measure data => rw [before, before, hperm.length_eq]
  | Answer | AnswerRoute | Log | Circuit_Break => rfl

/-- Which lines come after the call does not depend on the order of the layers. -/
theorem after_perm {layers layers' : List ProviderClass} (hperm : layers.Perm layers') (op : Operation) :
    after layers op = after layers' op := by
  cases op with
  | Log => rw [after, after, hperm.countP_eq]
  | Circuit_Break => rw [after, after, hperm.countP_eq]
  | Answer | AnswerRoute | Measure => rfl

/-- No text of a layer is a call. -/
private theorem filter_isCall_owns (texts : List Bytes) : (owns texts).events.filter Effect.isCall = [] := by
  rw [owns_events, List.filter_map, List.map_eq_nil_iff, List.filter_eq_nil_iff]
  intro text _
  exact Bool.false_ne_true

/-- The innermost object is called once, whatever it does then. -/
private theorem filter_isCall_innermost (impl : Operation → Call Unit) (op : Operation) :
    (innermost impl op).events.filter Effect.isCall = [.call op] := by
  have hinner : ((impl op).events.map Effect.inner).filter Effect.isCall = [] := by
    rw [List.filter_map, List.map_eq_nil_iff, List.filter_eq_nil_iff]
    intro event _
    exact Bool.false_ne_true
  rw [innermost, Exec.emit_bind_events, List.filter_cons_of_pos rfl, hinner]

/-- However the microservice ends, its operation is called exactly once. -/
theorem stack_calls_once (impl : Operation → Call Unit) (layers : List ProviderClass) (op : Operation) :
    ((AddProviders_shared (Uservice impl) layers).invoke op).events.filter Effect.isCall = [.call op] := by
  rw [stack_invoke, Exec.bind_events_of_returned (owns_outcome _), List.filter_append, filter_isCall_owns,
    List.nil_append, Exec.filter_bind_events _ fun _ => filter_isCall_owns _, filter_isCall_innermost]

/-- The innermost microservice runs under every stack: its call is recorded, and then
    what it does itself. -/
theorem innermost_events (impl : Operation → Call Unit) (op : Operation) :
    (innermost impl op).events = .call op :: (impl op).events.map .inner := rfl

/-- What happens in a stack, in order. The lines after the call are printed only when
    the microservice comes back. -/
theorem stack_events (impl : Operation → Call Unit) (layers : List ProviderClass) (op : Operation) :
    ((AddProviders_shared (Uservice impl) layers).invoke op).events =
      (before layers op).map .own ++ .call op :: (impl op).events.map .inner ++
        if (impl op).outcome = .returned () then (after layers op).map .own else [] := by
  have hinner : ((innermost impl op) >>= fun _ => owns (after layers op)).events =
      .call op :: (impl op).events.map .inner ++
        if (impl op).outcome = .returned () then (after layers op).map .own else [] := by
    by_cases hreturned : (impl op).outcome = .returned ()
    · have hcall : (innermost impl op).outcome = .returned () := hreturned
      rw [if_pos hreturned, Exec.bind_events_of_returned hcall, innermost_events, owns_events]
    · rw [if_neg hreturned, List.append_nil, ← innermost_events]
      exact Exec.bind_events_of_not_returned fun _ => hreturned
  rw [stack_invoke, Exec.bind_events_of_returned (owns_outcome _), owns_events, hinner, List.append_assoc]

/-- A stack ends as its microservice does. -/
theorem stack_outcome (impl : Operation → Call Unit) (layers : List ProviderClass) (op : Operation) :
    ((AddProviders_shared (Uservice impl) layers).invoke op).outcome = (impl op).outcome := by
  rw [stack_invoke, Exec.bind_outcome_of_returned (owns_outcome _)]
  exact Exec.bind_outcome_of_all_return fun _ => owns_outcome _

/-- Rearranging the layers of a stack changes nothing. -/
theorem stack_perm (impl : Operation → Call Unit) {layers layers' : List ProviderClass}
    (hperm : layers.Perm layers') (op : Operation) :
    (AddProviders_shared (Uservice impl) layers').invoke op =
      (AddProviders_shared (Uservice impl) layers).invoke op := by
  rw [stack_invoke, stack_invoke, before_perm hperm, after_perm hperm]

/-- Two of the classes add a line to the log. -/
theorem countP_logs (layers : List ProviderClass) :
    layers.countP ProviderClass.logs = layers.count .Logging + layers.count .Log4cppProvider := by
  induction layers with
  | nil => rfl
  | cons T layers ih =>
    cases T <;> simp [List.countP_cons, ih, ProviderClass.logs, Nat.add_right_comm, Nat.add_assoc]

/-- One of the classes adds a line to the circuit breaker. -/
theorem countP_breaks (layers : List ProviderClass) :
    layers.countP ProviderClass.breaks = layers.count .CircuitBreaker := by
  induction layers with
  | nil => rfl
  | cons T layers ih => cases T <;> simp [List.countP_cons, ih, ProviderClass.breaks]

/-- Stacks forward faithfully and in any order. Every operation on the outermost provider
    is that operation on the innermost microservice, called once and with the same
    arguments, and ends as it does. Before it stands one line of each layer for `Measure`;
    after it, once it has returned, one line of each `Logging` or `Log4cppProvider` for
    `Log` and one of each `CircuitBreaker` for `Circuit_Break`. -/
theorem stack_forwards (impl : Operation → Call Unit) (layers : List ProviderClass) :
    (∀ port threads,
      ((AddProviders_shared (Uservice impl) layers).Answer port threads).events =
        .call (.Answer port threads) :: (impl (.Answer port threads)).events.map .inner) ∧
    (∀ port threads route http_method,
      ((AddProviders_shared (Uservice impl) layers).AnswerRoute port threads route http_method).events =
        .call (.AnswerRoute port threads route http_method) ::
          (impl (.AnswerRoute port threads route http_method)).events.map .inner) ∧
    (∀ data,
      ((AddProviders_shared (Uservice impl) layers).Measure data).events =
        List.replicate layers.length (.own (lit "I'm in Provider\n")) ++
          .call (.Measure data) :: (impl (.Measure data)).events.map .inner) ∧
    (AddProviders_shared (Uservice impl) layers).Log.events =
      .call .Log :: (impl .Log).events.map .inner ++
        (if (impl .Log).outcome = .returned () then
          List.replicate (layers.count .Logging + layers.count .Log4cppProvider) (.own (lit "Logging here \n"))
        else []) ∧
    (AddProviders_shared (Uservice impl) layers).Circuit_Break.events =
      .call .Circuit_Break :: (impl .Circuit_Break).events.map .inner ++
        (if (impl .Circuit_Break).outcome = .returned () then
          List.replicate (layers.count .CircuitBreaker) (.own (lit "CircuitBreaker here\n"))
        else []) ∧
    ∀ op,
      ((AddProviders_shared (Uservice impl) layers).invoke op).events.filter Effect.isCall = [.call op] ∧
      ((AddProviders_shared (Uservice impl) layers).invoke op).outcome = (impl op).outcome ∧
      ∀ layers', layers.Perm layers' →
        (AddProviders_shared (Uservice impl) layers').invoke op =
          (AddProviders_shared (Uservice impl) layers).invoke op := by
  have hstack := stack_events impl layers
  refine ⟨fun port threads => ?_, fun port threads route http_method => ?_, fun data => ?_, ?_, ?_,
    fun op => ?_⟩
  · simpa [Uservice_Interface.invoke, before, after] using hstack (.Answer port threads)
  · simpa [Uservice_Interface.invoke, before, after] using hstack (.AnswerRoute port threads route http_method)
  · simpa [Uservice_Interface.invoke, before, after] using hstack (.Measure data)
  · simpa [Uservice_Interface.invoke, before, after, countP_logs] using hstack .Log
  · simpa [Uservice_Interface.invoke, before, after, countP_breaks] using hstack .Circuit_Break
  · exact ⟨stack_calls_once impl layers op, stack_outcome impl layers op, fun _ hperm =>
      stack_perm impl hperm op⟩

/-- Three layers over `Uservice` itself: two of them log, all three print for `Measure`,
    and the stack in the other order does the same. -/
theorem stack_forwards_three :
    (AddProviders_shared (Uservice Uservice.methods) [.Log4cppProvider, .CircuitBreaker, .Logging]).Log.events =
        [.call .Log, .inner (.cout (lit " Uservice Log \n")), .own (lit "Logging here \n"),
          .own (lit "Logging here \n")] ∧
      ((AddProviders_shared (Uservice Uservice.methods) [.Log4cppProvider, .CircuitBreaker, .Logging]).Measure
          (lit "m")).events =
        [.own (lit "I'm in Provider\n"), .own (lit "I'm in Provider\n"), .own (lit "I'm in Provider\n"),
          .call (.Measure (lit "m")), .inner (.cout (lit " Uservice Measure\n"))] ∧
      (AddProviders_shared (Uservice Uservice.methods)
        [.CircuitBreaker, .Log4cppProvider, .Logging]).invoke .Log =
        (AddProviders_shared (Uservice Uservice.methods) [.Log4cppProvider, .CircuitBreaker, .Logging]).invoke
          .Log := by
  obtain ⟨-, -, hmeasure, hlog, -, hall⟩ :=
    stack_forwards Uservice.methods [.Log4cppProvider, .CircuitBreaker, .Logging]
  exact ⟨hlog, hmeasure (lit "m"), (hall .Log).2.2 _ (.swap ..)⟩

end taraxacum
