import DatabaseAdmin.JobManager

/-! The hub's fan-out. Who receives an event is decided by the user it is emitted under;
whose connection or job it describes is kept beside it for the statements. -/
namespace DatabaseAdmin.LiveEvents
open StepSystem

inductive WsChannel where
  | jobs | connectionState | redisMonitor | redisPubsub | processes | queryProgress
  deriving DecidableEq

def WsChannel.name : WsChannel → String
  | .jobs => "jobs"
  | .connectionState => "connection-state"
  | .redisMonitor => "redis-monitor"
  | .redisPubsub => "redis-pubsub"
  | .processes => "processes"
  | .queryProgress => "query-progress"

structure Client where
  ready : Bool
  authed : Bool
  userId : Option String
  subscriptions : List String
  deriving DecidableEq

def truthy : Option String → Option String
  | some text => if text = "" then none else some text
  | none => none

def key (channel : WsChannel) (connectionId arg : Option String) : String :=
  String.intercalate "|" [channel.name, connectionId.getD "", arg.getD ""]

def withheld (owner : Option String) (c : Client) : Bool :=
  match truthy owner, truthy c.userId with
  | some owner, some user => decide (user ≠ owner)
  | _, _ => false

def subscribed (channel : WsChannel) (connectionId arg : Option String) (c : Client) : Bool :=
  c.authed && c.subscriptions.contains (key channel connectionId arg)

def broadcast (currentUserId : Option String) (clients : List Client) (channel : WsChannel)
    (connectionId arg : Option String) : List Client :=
  clients.filter fun c =>
    subscribed channel connectionId arg c && !withheld currentUserId c && c.ready

structure LiveEvent where
  owner : String
  currentUserId : Option String
  channel : WsChannel
  connectionId : Option String
  arg : Option String
  deriving DecidableEq

def received (clients : List Client) (e : LiveEvent) : List Client :=
  broadcast e.currentUserId clients e.channel e.connectionId e.arg

def OwnerOnly (clients : List Client) (e : LiveEvent) : Prop :=
  ∀ c ∈ received clients e, ∀ user, truthy c.userId = some user → user = e.owner

def Listening (e : LiveEvent) (c : Client) : Prop :=
  subscribed e.channel e.connectionId e.arg c = true ∧ c.ready = true

def EmittedApart (clients : List Client) (e : LiveEvent) : Prop :=
  truthy e.currentUserId = some e.owner ∨
    ∀ c ∈ clients, Listening e c → ∀ user, truthy c.userId = some user → user ≠ e.owner →
      ∃ current, truthy e.currentUserId = some current ∧ current ≠ user

variable {clients : List Client} {e : LiveEvent} {c : Client}

theorem receivedIff : c ∈ received clients e ↔
    c ∈ clients ∧ Listening e c ∧ withheld e.currentUserId c = false := by
  simp only [received, broadcast, List.mem_filter, Bool.and_eq_true, Bool.not_eq_true', Listening]
  constructor
  · intro ⟨member, ⟨subscribed, kept⟩, ready⟩
    exact ⟨member, ⟨subscribed, ready⟩, kept⟩
  · intro ⟨member, ⟨subscribed, ready⟩, kept⟩
    exact ⟨member, ⟨subscribed, kept⟩, ready⟩

theorem withheldIff (current : Option String) {user : String} (own : truthy c.userId = some user) :
    withheld current c = true ↔ ∃ owner, truthy current = some owner ∧ owner ≠ user := by
  unfold withheld
  cases ambient : truthy current with
  | none => simp
  | some owner => simp [own, ne_comm]

def jobBroadcasts (s : JobManager.JobsState String String) : List LiveEvent :=
  s.emitted.reverse.flatMap fun e =>
    match s.jobs[e.job]? with
    | some live => match live.creator with
      | some owner =>
          ⟨owner, e.ambient, .jobs, none, none⟩ ::
            match truthy live.connectionId with
            | some connectionId => [⟨owner, e.ambient, .jobs, some connectionId, none⟩]
            | none => []
      | none => []
    | none => []

end DatabaseAdmin.LiveEvents
