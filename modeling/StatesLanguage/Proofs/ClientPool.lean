import Mathlib.Data.List.Nodup
import StatesLanguage.Client.Script
import StatesLanguage.Proofs.Process
import StatesLanguage.Proofs.Table

/-!
# Clients of a transport

A call is served by the client of its target, which is what the call names itself and, for what it
leaves open, what is configured. A client is made when a target comes up for the first time and stays
for all calls of that target, so that no two are made with the same arguments.

The entries are the clients that were given and made (`clients_after`), each for a target of its own
(`Orderly.after`), and a call finds the one of its target (`Orderly.find?_eq_some`).
-/

namespace StatesLanguage.Client

/-! ## Targets of calls -/

/-- What a call names of its own: texts, which may be empty. -/
structure Override where
  endpoint : Option String
  region : Option String

namespace Override

def part (text? : Option String) : Value :=
  (text?.map Value.str).getD .null

def target (o : Override) : Target :=
  ⟨part o.endpoint, part o.region⟩

/-- A text that is not empty, or else what is configured. -/
def choose (text? : Option String) (configured : Value) : Value :=
  match text? with
  | none => configured
  | some text => if text = "" then configured else .str text

/-- The target of a call: what it names and, for the rest, what is configured. -/
def onto (o : Override) (configured : Target) : Target :=
  ⟨choose o.endpoint configured.endpoint, choose o.region configured.region⟩

theorem orElse_part (text? : Option String) (configured : Value) :
    (part text?).orElse configured = choose text? configured := by
  cases text? with
  | none => rfl
  | some text => by_cases h : text = "" <;> simp [part, choose, Value.orElse, Value.truthy, h]

theorem choose_eq_or (a b : Option String) (configured : Value) :
    choose a configured = choose b configured ∨
      (∃ text, text ≠ "" ∧ choose a configured = .str text) ∨
      ∃ text, text ≠ "" ∧ choose b configured = .str text := by
  have hcases : ∀ text?, choose text? configured = configured ∨
      ∃ text, text ≠ "" ∧ choose text? configured = .str text := by
    intro text?
    cases text? with
    | none => exact .inl rfl
    | some text =>
      by_cases h : text = ""
      · exact .inl (if_pos h)
      · exact .inr ⟨text, h, if_neg h⟩
  rcases hcases a with ha | ha
  · exact (hcases b).imp (ha.trans ·.symm) .inr
  · exact .inr (.inl ha)

end Override

theorem resolve_target {κ : Type} (p : Pool κ) (o : Override) :
    p.resolve o.target = o.onto p.configured := by
  simp only [Pool.resolve, Override.target, Override.orElse_part, Override.onto]

namespace Target

/-! ## Equal parts -/

theorem samePart_self {v : Value} {key : Option String} (h : v.asKey = .ok key) :
    samePart v v = true := by
  cases v with
  | arr | obj => cases h
  | float x => simp [samePart]
  | _ => simp [samePart, Value.same, Value.number?, Value.Number.equal, Value.Number.order?]

theorem samePart_str {v : Value} {text : String} :
    samePart v (.str text) = true ↔ v = .str text := by
  cases v <;> simp [samePart, Value.same, Value.number?]

theorem str_samePart {v : Value} {text : String} :
    samePart (.str text) v = true ↔ v = .str text := by
  cases v <;> simp [samePart, Value.same, Value.number?, Eq.comm (a := text)]

theorem samePart_choose {a b : Option String} {configured : Value} {key : Option String}
    (h : (Override.choose a configured).asKey = .ok key) :
    samePart (Override.choose a configured) (Override.choose b configured) = true ↔
      Override.choose a configured = Override.choose b configured := by
  refine ⟨fun hsame => ?_, fun heq => heq ▸ samePart_self h⟩
  rcases Override.choose_eq_or a b configured with heq | ⟨text, -, ha⟩ | ⟨text, -, hb⟩
  · exact heq
  · rw [ha] at hsame ⊢
    exact (str_samePart.mp hsame).symm
  · rw [hb] at hsame ⊢
    exact samePart_str.mp hsame

/-! ## Arguments -/

def argument? (v : Value) : Option Value :=
  if v.truthy then some v else none

theorem argument?_str {text : String} (h : text ≠ "") : argument? (.str text) = some (.str text) :=
  if_pos (bne_iff_ne.mpr h)

theorem eq_of_argument? {v w : Value} (h : argument? v = some w) : v = w :=
  Option.some.inj ((ite_eq_iff.mp h).elim (·.2) nofun)

theorem choose_inj {a b : Option String} {configured : Value}
    (h : argument? (Override.choose a configured) = argument? (Override.choose b configured)) :
    Override.choose a configured = Override.choose b configured := by
  rcases Override.choose_eq_or a b configured with heq | ⟨text, htext, ha⟩ | ⟨text, htext, hb⟩
  · exact heq
  · rw [ha, argument?_str htext] at h
    rw [ha, eq_of_argument? h.symm]
  · rw [hb, argument?_str htext] at h
    rw [hb, eq_of_argument? h]

theorem get?_arguments_endpoint (t : Target) :
    Table.get? t.arguments "endpoint_url" = argument? t.endpoint := by
  unfold arguments argument?
  split <;> split <;> simp [Table.get?_cons, Table.get?_eq_none]

theorem get?_arguments_region (t : Target) :
    Table.get? t.arguments "region_name" = argument? t.region := by
  unfold arguments argument?
  split <;> split <;> simp [Table.get?_cons, Table.get?_eq_none]

/-! ## Targets under which clients are kept -/

/-- The targets under which clients are kept: those of calls, unless they cannot be looked up. -/
structure Keyed (t configured : Target) : Prop where
  named : ∃ o : Override, t = o.onto configured
  checked : t.check = .ok ()

variable {configured t u : Target}

theorem keyed_onto (o : Override) (h : (o.onto configured).check = .ok ()) :
    (o.onto configured).Keyed configured :=
  ⟨⟨o, rfl⟩, h⟩

theorem check_eq_ok : t.check = .ok () ↔
    (∃ key, t.endpoint.asKey = .ok key) ∧ ∃ key, t.region.asKey = .ok key := by
  simp [check, Outcome.bind_eq_ok, pure, Except.pure]

theorem Keyed.same_iff (ht : t.Keyed configured) (hu : u.Keyed configured) :
    t.same u = true ↔ t = u := by
  obtain ⟨⟨o, rfl⟩, hchecked⟩ := ht
  obtain ⟨⟨o', rfl⟩, -⟩ := hu
  obtain ⟨⟨_, hendpoint⟩, _, hregion⟩ := check_eq_ok.mp hchecked
  rw [same, Bool.and_eq_true, Override.onto, Override.onto, samePart_choose hendpoint,
    samePart_choose hregion, mk.injEq]

theorem Keyed.arguments_inj (ht : t.Keyed configured) (hu : u.Keyed configured)
    (h : t.arguments = u.arguments) : t = u := by
  obtain ⟨⟨o, rfl⟩, -⟩ := ht
  obtain ⟨⟨o', rfl⟩, -⟩ := hu
  have hendpoint := congrArg (Table.get? · "endpoint_url") h
  have hregion := congrArg (Table.get? · "region_name") h
  simp only [get?_arguments_endpoint, get?_arguments_region] at hendpoint hregion
  exact congrArg₂ Target.mk (choose_inj hendpoint) (choose_inj hregion)

end Target

/-! ## Calls of a transport -/

structure Exchange (κ : Type) where
  call : Call
  override : Override
  /-- What comes of making a client, should there be none. -/
  make : Members → Outcome κ
  reply : κ → Outcome Value

def Exchange.through [Room] {κ : Type} (e : Exchange κ) (client : κ) : Outcome Value :=
  if e.call.request.isObject then (e.reply client).bind e.call.plainReply
  else .error (.wrongType "a request has to be an object")

structure Creation (κ : Type) where
  target : Target
  arguments : Members
  client : κ

def Connection.creation? {κ : Type} (x : Connection κ) (target : Target) : Option (Creation κ) :=
  match x.asked, x.client with
  | some arguments, .ok client => some ⟨target, arguments, client⟩
  | _, _ => none

theorem Connection.creation?_of_error {κ : Type} {x : Connection κ} {target : Target}
    {failure : Failure} (h : x.client = .error failure) : x.creation? target = none := by
  rw [creation?, h]
  cases x.asked <;> rfl

theorem Connection.creation?_of_ok {κ : Type} {x : Connection κ} {target : Target} {client : κ}
    (h : x.client = .ok client) :
    x.creation? target = x.asked.map fun arguments => ⟨target, arguments, client⟩ := by
  rw [creation?, h]
  cases x.asked <;> rfl

namespace Pool

variable {κ : Type}

/-- A transport's clients to begin with: only the one that it is given. -/
def create (service : Service) (config : Value) (given : Option κ) : Outcome (Pool κ) := do
  let p ← ofConfig service config
  match given with
  | none => return p
  | some client => p.withClient client

def connection (p : Pool κ) (e : Exchange κ) : Connection κ :=
  p.connect e.make e.override.target

section

variable [Room]

def call (p : Pool κ) (e : Exchange κ) : Outcome Value × Pool κ :=
  ((p.connection e).client.bind e.through, (p.connection e).pool)

def after (p : Pool κ) (history : List (Exchange κ)) : Pool κ :=
  history.foldl (fun p e => (p.call e).2) p

def creation? (p : Pool κ) (e : Exchange κ) : Option (Creation κ) :=
  (p.connection e).creation? (e.override.onto p.configured)

def creations (p : Pool κ) : List (Exchange κ) → List (Creation κ)
  | [] => []
  | e :: rest => (p.creation? e).toList ++ creations (p.call e).2 rest

/-- The client of a target: the one that was given, if the target is as configured, or else one that
was made for it. -/
def Belongs (given : Option κ) (p : Pool κ) (history : List (Exchange κ)) (target : Target)
    (client : κ) : Prop :=
  (given = some client ∧ target = p.configured) ∨
    ∃ c ∈ p.creations history, c.target = target ∧ c.client = client

/-- Whether some call of a target has got a client. -/
def Served (p : Pool κ) (history : List (Exchange κ)) (target : Target) : Prop :=
  ∃ before e client, before ++ [e] <+: history ∧ e.override.onto p.configured = target ∧
    ((p.after before).connection e).client = .ok client

end

/-- Everything that can come of seeing to a client for a target. -/
inductive Connects (p : Pool κ) (make : Members → Outcome κ) (target : Target) :
    Connection κ → Prop
  | unkeyed {failure} (unchecked : target.check = .error failure) :
      Connects p make target ⟨none, .error failure, p⟩
  | found {client} (checked : target.check = .ok ()) (hit : p.find? target = some client) :
      Connects p make target ⟨none, .ok client, p⟩
  | unmade {failure} (checked : target.check = .ok ()) (miss : p.find? target = none)
      (failed : make target.arguments = .error failure) :
      Connects p make target ⟨some target.arguments, .error failure, p⟩
  | made {client} (checked : target.check = .ok ()) (miss : p.find? target = none)
      (succeeded : make target.arguments = .ok client) :
      Connects p make target
        ⟨some target.arguments, .ok client, { p with clients := p.clients ++ [(target, client)] }⟩

/-! ## Entries -/

/-- Each client is kept under a target of its own, which a call can have. -/
structure Orderly (p : Pool κ) : Prop where
  keyed : ∀ entry ∈ p.clients, entry.1.Keyed p.configured
  distinct : (p.clients.map (·.1)).Nodup

variable {p start : Pool κ} {target : Target} {client : κ} {given : Option κ}

theorem Orderly.find?_eq_some (h : p.Orderly) (htarget : target.Keyed p.configured) :
    p.find? target = some client ↔ (target, client) ∈ p.clients := by
  have hhit : ∀ entry, p.clients.find? (fun entry => target.same entry.1) = some entry →
      entry ∈ p.clients ∧ target = entry.1 := by
    intro entry hfind
    have hentry := List.mem_of_find?_eq_some hfind
    exact ⟨hentry, (htarget.same_iff (h.keyed entry hentry)).mp (by simpa using List.find?_some hfind)⟩
  rw [find?, Option.map_eq_some_iff]
  constructor
  · rintro ⟨entry, hfind, rfl⟩
    obtain ⟨hentry, rfl⟩ := hhit entry hfind
    exact hentry
  · intro hmem
    have hself : target.same target = true := (htarget.same_iff htarget).mpr rfl
    obtain ⟨entry, hfind⟩ := Option.isSome_iff_exists.mp
      (List.find?_isSome (p := fun entry => target.same entry.1).mpr ⟨(target, client), hmem, hself⟩)
    obtain ⟨hentry, htarget⟩ := hhit entry hfind
    refine ⟨entry, hfind, ?_⟩
    rw [List.inj_on_of_nodup_map h.distinct hentry hmem htarget.symm]

theorem Orderly.find?_eq_none (h : p.Orderly) (htarget : target.Keyed p.configured) :
    p.find? target = none ↔ ∀ client, (target, client) ∉ p.clients := by
  simp only [← h.find?_eq_some htarget, Option.eq_none_iff_forall_ne_some, ne_eq]

theorem orderly_create {service : Service} {config : Value}
    (h : create service config given = .ok start) :
    start.Orderly ∧ start.clients = given.toList.map (start.configured, ·) := by
  obtain ⟨p, hp, h⟩ := Outcome.bind_eq_ok.mp h
  have hnone : p.clients = [] := by
    obtain ⟨_, -, hp⟩ := Outcome.bind_eq_ok.mp hp
    obtain ⟨_, -, hp⟩ := Outcome.bind_eq_ok.mp hp
    obtain ⟨_, -, hp⟩ := Outcome.bind_eq_ok.mp hp
    cases hp
    rfl
  cases given with
  | none =>
    cases h
    refine ⟨⟨?_, ?_⟩, ?_⟩ <;> simp [hnone]
  | some client =>
    obtain ⟨⟨⟩, hchecked, h⟩ := Outcome.bind_eq_ok.mp h
    cases h
    have hkeyed : p.configured.Keyed p.configured := Target.keyed_onto ⟨none, none⟩ hchecked
    exact ⟨⟨by simpa using hkeyed, by simp⟩, rfl⟩

/-! ## What comes of a call -/

namespace Connects

variable {make : Members → Outcome κ} {x : Connection κ} {o : Override}

theorem configured (h : Connects p make target x) : x.pool.configured = p.configured := by
  cases h <;> rfl

theorem clients (h : Connects p make target x) : x.pool.clients =
    p.clients ++ (x.creation? target).toList.map fun c => (c.target, c.client) := by
  cases h <;> simp [Connection.creation?]

theorem creation?_arguments (h : Connects p make target x) {c : Creation κ}
    (hc : x.creation? target = some c) : c.arguments = c.target.arguments := by
  cases h <;> cases hc
  rfl

theorem mem_clients (h : Connects p make target x) {entry : Target × κ} (hentry : entry.1 ≠ target) :
    entry ∈ x.pool.clients ↔ entry ∈ p.clients := by
  cases h with
  | unkeyed | found | unmade => rfl
  | made => simp [Prod.ext_iff, hentry]

theorem pool_of_failed (h : Connects p make target x) {failure : Failure}
    (hfailed : x.client = .error failure) : x.pool = p := by
  cases h with
  | unkeyed | unmade => rfl
  | found | made => cases hfailed

/-- A client is asked for exactly if the target has none and one can be kept under it. -/
theorem asked_iff (h : Connects p make (o.onto p.configured) x) (hp : p.Orderly)
    (arguments : Members) : x.asked = some arguments ↔
      arguments = (o.onto p.configured).arguments ∧ (o.onto p.configured).check = .ok () ∧
        ∀ client, (o.onto p.configured, client) ∉ p.clients := by
  cases h with
  | unkeyed unchecked => simp [unchecked]
  | found checked hit =>
    have hmem := (hp.find?_eq_some (Target.keyed_onto o checked)).mp hit
    exact iff_of_false nofun fun hnone => hnone.2.2 _ hmem
  | unmade checked miss | made checked miss =>
    have hnone := (hp.find?_eq_none (Target.keyed_onto o checked)).mp miss
    exact Option.some_inj.trans (eq_comm.trans (and_iff_left ⟨checked, hnone⟩).symm)

theorem client_iff (h : Connects p make (o.onto p.configured) x) (hp : p.Orderly) :
    x.client = .ok client ↔ (o.onto p.configured, client) ∈ x.pool.clients := by
  cases h with
  | unkeyed unchecked =>
    refine iff_of_false nofun fun hmem => ?_
    cases unchecked.symm.trans (hp.keyed _ hmem).checked
  | found checked hit =>
    rw [← hp.find?_eq_some (Target.keyed_onto o checked), hit]
    simp
  | unmade checked miss =>
    exact iff_of_false nofun ((hp.find?_eq_none (Target.keyed_onto o checked)).mp miss _)
  | made checked miss =>
    have hnone := (hp.find?_eq_none (Target.keyed_onto o checked)).mp miss client
    simp [hnone, eq_comm]

theorem orderly (h : Connects p make (o.onto p.configured) x) (hp : p.Orderly) : x.pool.Orderly := by
  cases h with
  | unkeyed | found | unmade => exact hp
  | made checked miss =>
    have hkeyed := Target.keyed_onto o checked
    refine ⟨fun entry hentry => ?_, ?_⟩
    · rcases List.mem_append.mp hentry with hentry | hentry
      · exact hp.keyed entry hentry
      · rw [List.mem_singleton.mp hentry]
        exact hkeyed
    · have hnone := (hp.find?_eq_none hkeyed).mp miss
      rw [List.map_append, List.map_singleton, ← List.concat_eq_append, List.nodup_concat]
      exact ⟨by simpa using hnone, hp.distinct⟩

end Connects

theorem connects (p : Pool κ) (e : Exchange κ) :
    Connects p e.make (e.override.onto p.configured) (p.connection e) := by
  rw [connection, connect, resolve_target]
  split
  · exact .unkeyed ‹_›
  · split
    · exact .found ‹_› ‹_›
    · split
      · exact .unmade ‹_› ‹_› ‹_›
      · exact .made ‹_› ‹_› ‹_›

section

variable [Room]

/-! ## Calls one after the other -/

@[simp] theorem configured_after (p : Pool κ) (history : List (Exchange κ)) :
    (p.after history).configured = p.configured := by
  induction history generalizing p with
  | nil => rfl
  | cons e rest ih => exact (ih _).trans (connects p e).configured

theorem Orderly.after (h : p.Orderly) (history : List (Exchange κ)) : (p.after history).Orderly := by
  induction history generalizing p with
  | nil => exact h
  | cons e rest ih => exact ih ((connects p e).orderly h)

theorem after_concat (p : Pool κ) (history : List (Exchange κ)) (e : Exchange κ) :
    p.after (history ++ [e]) = ((p.after history).connection e).pool := by
  simp [Pool.after, call]

theorem clients_after (p : Pool κ) (history : List (Exchange κ)) :
    (p.after history).clients =
      p.clients ++ (p.creations history).map fun c => (c.target, c.client) := by
  induction history generalizing p with
  | nil => exact (List.append_nil _).symm
  | cons e rest ih =>
    rw [creations, creation?, List.map_append, ← List.append_assoc, ← (connects p e).clients]
    exact ih _

theorem mem_clients_after (h : start.clients = given.toList.map (start.configured, ·))
    (history : List (Exchange κ)) :
    (target, client) ∈ (start.after history).clients ↔ Belongs given start history target client := by
  rw [clients_after, List.mem_append, h]
  simp [Belongs, eq_comm, and_comm]

theorem creations_append (p : Pool κ) (history more : List (Exchange κ)) :
    p.creations (history ++ more) = p.creations history ++ (p.after history).creations more := by
  induction history generalizing p with
  | nil => rfl
  | cons e rest ih =>
    rw [List.cons_append, creations, creations, ih, List.append_assoc]
    rfl

theorem arguments_of_mem_creations {history : List (Exchange κ)} {c : Creation κ}
    (hc : c ∈ p.creations history) : c.arguments = c.target.arguments := by
  induction history generalizing p with
  | nil => cases hc
  | cons e rest ih =>
    rcases List.mem_append.mp hc with hc | hc
    · exact (connects p e).creation?_arguments (Option.mem_toList.mp hc)
    · exact ih hc

structure Lawful (given : Option κ) (start : Pool κ) (history : List (Exchange κ))
    (e : Exchange κ) : Prop where
  /-- A call is served by the client of its target. -/
  served : ∀ client, Belongs given start (history ++ [e]) (e.override.onto start.configured) client →
    ((start.after history).call e).1 = e.through client
  client : ∀ client, ((start.after history).connection e).client = .ok client ↔
    Belongs given start (history ++ [e]) (e.override.onto start.configured) client
  /-- A client is asked for with the parts of the target that are given, exactly if there is none for
  the target and one can be kept under it. -/
  asked : ∀ arguments, ((start.after history).connection e).asked = some arguments ↔
    arguments = (e.override.onto start.configured).arguments ∧
      (e.override.onto start.configured).check = .ok () ∧
      ∀ client, ¬Belongs given start history (e.override.onto start.configured) client
  /-- None is asked for once a call of the same target was served. -/
  once : Served start history (e.override.onto start.configured) →
    ((start.after history).connection e).asked = none
  /-- None is asked for in place of one that was given. -/
  spared : given.isSome → e.override.onto start.configured = start.configured →
    ((start.after history).connection e).asked = none
  /-- Whatever the answer, the clients of other targets stay as they are. -/
  others : ∀ entry, entry.1 ≠ e.override.onto start.configured →
    (entry ∈ ((start.after history).call e).2.clients ↔ entry ∈ (start.after history).clients)
  /-- If no client could be had, all do. -/
  failed : ∀ failure, ((start.after history).connection e).client = .error failure →
    ((start.after history).call e).2 = start.after history

theorem Orderly.nodup_arguments (h : start.Orderly) (history : List (Exchange κ)) :
    ((start.creations history).map (·.arguments)).Nodup := by
  obtain ⟨hkeyed, hdistinct⟩ := h.after history
  rw [clients_after, configured_after] at hkeyed
  rw [clients_after, List.map_append, List.nodup_append] at hdistinct
  have hsplit : (start.creations history).map (·.arguments) =
      ((start.creations history).map (·.target)).map Target.arguments := by
    rw [List.map_map]
    exact List.map_congr_left fun c hc => arguments_of_mem_creations hc
  have htargets : ∀ t ∈ (start.creations history).map (·.target), t.Keyed start.configured := by
    refine List.forall_mem_map.mpr fun c hc => hkeyed (c.target, c.client) ?_
    exact List.mem_append_right _ (List.mem_map_of_mem hc)
  rw [hsplit]
  refine List.Nodup.map_on (fun t ht u hu => (htargets t ht).arguments_inj (htargets u hu)) ?_
  simpa [Function.comp_def] using hdistinct.2.1

theorem belongs_of_served (hstart : start.Orderly)
    (hclients : start.clients = given.toList.map (start.configured, ·)) {history : List (Exchange κ)}
    (h : Served start history target) : ∃ client, Belongs given start history target client := by
  obtain ⟨before, e, client, ⟨more, rfl⟩, rfl, hclient⟩ := h
  rw [(connects _ e).client_iff (hstart.after before), configured_after, ← after_concat,
    mem_clients_after hclients] at hclient
  refine ⟨client, hclient.imp_right ?_⟩
  rintro ⟨c, hc, hcreated⟩
  rw [creations_append]
  exact ⟨c, List.mem_append_left _ hc, hcreated⟩

/-- No two clients are made with the same arguments, and each call keeps to the one of its target. -/
theorem clients_kept_by_target {service : Service} {config : Value}
    (h : create service config given = .ok start) (history : List (Exchange κ)) :
    ((start.creations history).map (·.arguments)).Nodup ∧ ∀ e, Lawful given start history e := by
  obtain ⟨horderly, hclients⟩ := orderly_create h
  refine ⟨horderly.nodup_arguments history, fun e => ?_⟩
  have hafter := horderly.after history
  have hconnects := connects (start.after history) e
  have hasked := hconnects.asked_iff hafter
  have hclient : ∀ client, ((start.after history).connection e).client = .ok client ↔
      Belongs given start (history ++ [e]) (e.override.onto start.configured) client := by
    intro client
    rw [hconnects.client_iff hafter, configured_after, ← after_concat, mem_clients_after hclients]
  simp only [configured_after, mem_clients_after hclients] at hasked
  have hnone : ∀ client, Belongs given start history (e.override.onto start.configured) client →
      ((start.after history).connection e).asked = none := by
    intro client hbelongs
    refine Option.eq_none_iff_forall_ne_some.mpr fun arguments harguments => ?_
    exact ((hasked arguments).mp harguments).2.2 client hbelongs
  refine ⟨fun client hbelongs => ?_, hclient, hasked, fun hserved => ?_, fun hgiven htarget => ?_,
    fun entry hentry => ?_, fun failure => hconnects.pool_of_failed⟩
  · rw [Pool.call, (hclient client).mpr hbelongs]
    rfl
  · obtain ⟨client, hbelongs⟩ := belongs_of_served horderly hclients hserved
    exact hnone client hbelongs
  · obtain ⟨client, rfl⟩ := Option.isSome_iff_exists.mp hgiven
    exact hnone client (.inl ⟨rfl, htarget⟩)
  · exact hconnects.mem_clients (by rwa [configured_after])

end

def regionalConfig : Value :=
  .obj [("lambda", .obj [("region", .str "us-east-1")])]

/-- The clients of a transport to that region with a client given. -/
def regional : Pool Nat :=
  ⟨.lambda, ⟨.null, .str "us-east-1"⟩, [(⟨.null, .str "us-east-1"⟩, 7)]⟩

def callAt (endpoint : Option String) : Exchange Nat where
  call := .invoke (.obj [])
  override := ⟨endpoint, some ""⟩
  make _ := .ok 3
  reply _ := .ok (.obj [])

theorem clients_kept_by_target_regional :
    let calls := [callAt none, callAt (some "http://localhost:4566"), callAt (some ""),
      callAt (some "http://localhost:4566")]
    create .lambda regionalConfig (some 7) = .ok regional ∧
      (regional.creations calls).map (·.arguments) =
        [[("endpoint_url", .str "http://localhost:4566"), ("region_name", .str "us-east-1")]] ∧
      ((regional.creations calls).map (·.arguments)).Nodup ∧
      ∀ e, Lawful (some 7) regional calls e :=
  have hcreate : create .lambda regionalConfig (some 7) = .ok regional := rfl
  ⟨hcreate, rfl, clients_kept_by_target hcreate _⟩

end Pool

/-! ## Scripted services -/

namespace Services

variable [Room]

def reply (script : Table (List Answer)) (c : Call) : Outcome Value :=
  match nextEntry ((Table.get? script c.line).getD []) with
  | none => (unscripted c).outcome
  | some (answer, _) => answer.outcome

/-- A call of scripted services, as its transport sees it: a client can always be made, and every one
answers by the script. -/
def exchange (s : Services) (c : Call) (o : Override) : Exchange Unit where
  call := c
  override := o
  make _ := .ok ()
  reply _ := reply s.script c

structure Timed where
  time : Nat
  call : Call
  override : Override

def next (s : Services) (t : Timed) : Services :=
  (s.call t.time t.call t.override.target).2

def callAll (s : Services) (calls : List Timed) : Services :=
  calls.foldl next s

def exchanges (service : Service) (s : Services) : List Timed → List (Exchange Unit)
  | [] => []
  | t :: rest =>
    (if t.call.service = service then [s.exchange t.call t.override] else []) ++
      exchanges service (s.next t) rest

/-- What a call leaves behind, given how its transport saw to a client. -/
def connected (s : Services) (c : Call) (x : Connection Unit) : Services :=
  { s.setTransport x.pool c.service with
    created := s.created ++ (x.asked.map (c.service, ·)).toList }

theorem connect_eq (s : Services) (c : Call) (o : Override) :
    let x := (s.transport c.service).connection (s.exchange c o)
    s.connect c o.target = x.client.bind fun () => .ok (s.connected c x) :=
  rfl

omit [Room] in
theorem transport_connected (s : Services) (c : Call) (x : Connection Unit) (service : Service) :
    (s.connected c x).transport service =
      if c.service = service then x.pool else s.transport service := by
  cases c <;> cases service <;> rfl

omit [Room] in
theorem script_connected (s : Services) (c : Call) (x : Connection Unit) :
    (s.connected c x).script = s.script := by
  cases c <;> rfl

theorem serve_keeps (s : Services) (now : Nat) (c : Call) :
    (∀ service, (s.serve now c).2.transport service = s.transport service) ∧
      (s.serve now c).2.created = s.created := by
  unfold serve
  dsimp only
  split <;> exact ⟨fun service => by cases service <;> rfl, rfl⟩

theorem outcome_serve (s : Services) (now : Nat) (c : Call) :
    (s.serve now c).1.outcome = (reply s.script c).bind c.plainReply := by
  unfold serve reply
  dsimp only
  cases nextEntry ((Table.get? s.script c.line).getD []) <;> rfl

theorem call_of_error {s : Services} {now : Nat} {c : Call} {o : Override} {failure : Failure}
    (h : ((s.transport c.service).connection (s.exchange c o)).client = .error failure) :
    s.call now c o.target = (⟨0, .error failure⟩, s) := by
  have hconnect : s.connect c o.target = _ := connect_eq s c o
  rw [call, hconnect, h]
  rfl

theorem call_of_ok {s : Services} {now : Nat} {c : Call} {o : Override}
    (h : ((s.transport c.service).connection (s.exchange c o)).client = .ok ()) :
    s.call now c o.target =
      let s := s.connected c ((s.transport c.service).connection (s.exchange c o))
      if c.request.isObject then s.serve now c
      else (⟨0, .error (.wrongType "a request has to be an object")⟩, s) := by
  have hconnect : s.connect c o.target = _ := connect_eq s c o
  rw [call, hconnect, h]
  rfl

theorem call_eq (s : Services) (now : Nat) (c : Call) (o : Override) :
    let p := s.transport c.service
    let e := s.exchange c o
    (s.call now c o.target).1.outcome = (p.call e).1 ∧
      (∀ service, (s.call now c o.target).2.transport service =
        if c.service = service then (p.call e).2 else s.transport service) ∧
      (s.call now c o.target).2.created =
        s.created ++ (p.creation? e).toList.map fun made => (c.service, made.arguments) := by
  intro p e
  cases hclient : (p.connection e).client with
  | error failure =>
    have hcreation : p.creation? e = none := Connection.creation?_of_error hclient
    rw [call_of_error hclient, hcreation, Pool.call, hclient,
      (Pool.connects p e).pool_of_failed hclient]
    refine ⟨rfl, fun service => ?_, (List.append_nil _).symm⟩
    split
    · rename_i hservice
      rw [← hservice]
    · rfl
  | ok client =>
    have hcreation : (p.creation? e).toList.map (fun made => (c.service, made.arguments)) =
        ((p.connection e).asked.map (c.service, ·)).toList := by
      rw [Pool.creation?, Connection.creation?_of_ok hclient]
      cases (p.connection e).asked <;> rfl
    rw [call_of_ok hclient, hcreation, Pool.call, hclient]
    by_cases hobject : c.request.isObject = true
    · have hthrough : e.through () = (reply s.script c).bind c.plainReply := if_pos hobject
      obtain ⟨htransport, hcreated⟩ := serve_keeps (s.connected c (p.connection e)) now c
      rw [if_pos hobject]
      refine ⟨?_, fun service => ?_, hcreated⟩
      · rw [outcome_serve, script_connected, ← hthrough]
        rfl
      · rw [htransport, transport_connected]
    · have hthrough : e.through () = .error (.wrongType "a request has to be an object") :=
        if_neg hobject
      rw [if_neg hobject]
      exact ⟨hthrough.symm, transport_connected s c _, rfl⟩

theorem next_eq (s : Services) (t : Timed) :
    let p := s.transport t.call.service
    let e := s.exchange t.call t.override
    (∀ service, (s.next t).transport service =
        if t.call.service = service then (p.call e).2 else s.transport service) ∧
      (s.next t).created =
        s.created ++ (p.creation? e).toList.map fun made => (t.call.service, made.arguments) :=
  (call_eq s t.time t.call t.override).2

theorem created_callAll (s : Services) (service : Service) (calls : List Timed) :
    (s.callAll calls).created.filter (·.1 = service) = s.created.filter (·.1 = service) ++
      ((s.transport service).creations (exchanges service s calls)).map
        fun made => (service, made.arguments) := by
  induction calls generalizing s with
  | nil => exact (List.append_nil _).symm
  | cons t rest ih =>
    obtain ⟨htransport, hcreated⟩ := next_eq s t
    refine (ih (s.next t)).trans ?_
    rw [htransport, hcreated, exchanges, List.filter_append, List.append_assoc, List.filter_map]
    congr 1
    by_cases hservice : t.call.service = service
    · subst hservice
      simp [Pool.creations, Function.comp_def]
    · simp [hservice, Function.comp_def]

/-- However the calls come after the start, no client is made twice. -/
theorem nodup_created {s : Services} (hcreated : s.created = [])
    (hstart : ∀ service, ∃ config given,
      Pool.create service config given = .ok (s.transport service))
    (calls : List Timed) : (s.callAll calls).created.Nodup := by
  refine List.nodup_iff_sublist.mpr fun made htwice => ?_
  obtain ⟨config, given, hcreate⟩ := hstart made.1
  have hservice := created_callAll s made.1 calls
  rw [hcreated, List.filter_nil, List.nil_append] at hservice
  have hinj : Function.Injective fun arguments : Members => (made.1, arguments) :=
    fun _ _ h => (Prod.mk.inj h).2
  have hnodup := ((Pool.orderly_create hcreate).1.nodup_arguments (exchanges made.1 s calls)).map hinj
  rw [List.map_map, Function.comp_def, ← hservice] at hnodup
  have hfiltered : List.Sublist [made, made] ((s.callAll calls).created.filter (·.1 = made.1)) := by
    simpa using htwice.filter (·.1 = made.1)
  exact List.nodup_iff_sublist.mp hnodup made hfiltered

end Services

end StatesLanguage.Client
