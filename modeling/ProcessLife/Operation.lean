import ProcessLife.Fault

/-! Operations on a shared state. An operation answers or stops, and in both cases leaves a state
behind and has told what it did: nothing is undone by stopping. What comes after goes on only from
an answer. The lemmas say for each way of building an operation what its reply is; with them the
reply of a whole operation can be computed on a given state. -/

namespace ProcessLife

/-- Why an operation ended without an answer. -/
inductive Stop where
  /-- The call failed, and its caller gets the error. -/
  | failed (e : Errno)
  /-- A caller broke a rule. -/
  | broken (f : Fault)
  /-- The calling task is gone. -/
  | exited (code : Int32)
  /-- The call has to wait for a notification, and is tried again then. -/
  | asleep
deriving DecidableEq

/-- How an operation ended, what it left behind, and what it told on the way. -/
structure Reply (σ ε α : Type) where
  result : Except Stop α
  state : σ
  events : List ε

variable {σ τ ε δ α β : Type}

namespace Reply

/-- The same reply with something told before. -/
def after (told : List ε) (r : Reply σ ε α) : Reply σ ε α :=
  { r with events := told ++ r.events }

def andThen (r : Reply σ ε α) (next : α → σ → Reply σ ε β) : Reply σ ε β :=
  match r.result with
  | .ok a => (next a r.state).after r.events
  | .error why => ⟨.error why, r.state, r.events⟩

@[simp]
theorem after_nil (r : Reply σ ε α) : r.after [] = r :=
  rfl

@[simp]
theorem after_mk (told events : List ε) (x : Except Stop α) (s : σ) :
    (Reply.mk x s events).after told = ⟨x, s, told ++ events⟩ :=
  rfl

@[simp]
theorem result_after (told : List ε) (r : Reply σ ε α) : (r.after told).result = r.result :=
  rfl

@[simp]
theorem state_after (told : List ε) (r : Reply σ ε α) : (r.after told).state = r.state :=
  rfl

@[simp]
theorem events_after (told : List ε) (r : Reply σ ε α) :
    (r.after told).events = told ++ r.events :=
  rfl

@[simp]
theorem andThen_ok (a : α) (s : σ) (told : List ε) (next : α → σ → Reply σ ε β) :
    (Reply.mk (.ok a) s told).andThen next = (next a s).after told :=
  rfl

@[simp]
theorem andThen_error (why : Stop) (s : σ) (told : List ε) (next : α → σ → Reply σ ε β) :
    (Reply.mk (.error why) s told).andThen next = ⟨.error why, s, told⟩ :=
  rfl

@[simp]
theorem after_after (first second : List ε) (r : Reply σ ε α) :
    (r.after second).after first = r.after (first ++ second) := by
  simp [after]

theorem andThen_assoc {γ : Type} (r : Reply σ ε α) (f : α → σ → Reply σ ε β)
    (g : β → σ → Reply σ ε γ) :
    (r.andThen f).andThen g = r.andThen fun a s => (f a s).andThen g := by
  obtain ⟨_ | a, s, told⟩ := r
  · rfl
  · cases h : (f a s).result <;> simp [andThen, after, h]

end Reply

def Operation (σ ε α : Type) : Type :=
  σ → Reply σ ε α

namespace Operation

def run (x : Operation σ ε α) (s : σ) : Reply σ ε α :=
  x s

instance : Monad (Operation σ ε) where
  pure a := fun s => ⟨.ok a, s, []⟩
  bind x next := fun s => (x.run s).andThen fun a => (next a).run

def current : Operation σ ε σ :=
  fun s => ⟨.ok s, s, []⟩

def modify (f : σ → σ) : Operation σ ε Unit :=
  fun s => ⟨.ok (), f s, []⟩

def tell (told : List ε) : Operation σ ε Unit :=
  fun s => ⟨.ok (), s, told⟩

def emit (e : ε) : Operation σ ε Unit :=
  tell [e]

def stop (why : Stop) : Operation σ ε α :=
  fun s => ⟨.error why, s, []⟩

def fail (e : Errno) : Operation σ ε α :=
  stop (.failed e)

/-- An answer that may break a rule, without any change. -/
def ofExcept : Except Fault α → Operation σ ε α
  | .ok a => pure a
  | .error f => stop (.broken f)

/-- A step that changes the state or breaks a rule; breaking it changes nothing. -/
def update (f : σ → Except Fault σ) : Operation σ ε Unit :=
  fun s =>
    match f s with
    | .ok s' => ⟨.ok (), s', []⟩
    | .error fault => ⟨.error (.broken fault), s, []⟩

/-- A step that changes the state also where it breaks a rule. -/
def transition (f : σ → Except Fault α × σ) : Operation σ ε α :=
  fun s =>
    match f s with
    | (.ok a, s') => ⟨.ok a, s', []⟩
    | (.error fault, s') => ⟨.error (.broken fault), s', []⟩

/-- Turns failure into an answer; what else stops an operation still stops it. -/
def attempt (x : Operation σ ε α) : Operation σ ε (Except Errno α) :=
  fun s =>
    let r := x.run s
    match r.result with
    | .ok a => ⟨.ok (.ok a), r.state, r.events⟩
    | .error (.failed e) => ⟨.ok (.error e), r.state, r.events⟩
    | .error why => ⟨.error why, r.state, r.events⟩

def settle : Except Errno α → Operation σ ε α
  | .ok a => pure a
  | .error e => fail e

def zoom (part : τ → σ) (put : σ → τ → τ) (wrap : ε → δ) (x : Operation σ ε α) : Operation τ δ α :=
  fun t =>
    let r := x.run (part t)
    ⟨r.result, put r.state t, r.events.map wrap⟩

section run

variable (s : σ)

@[simp]
theorem run_pure (a : α) : (pure a : Operation σ ε α).run s = ⟨.ok a, s, []⟩ :=
  rfl

@[simp]
theorem run_bind (x : Operation σ ε α) (next : α → Operation σ ε β) :
    (x >>= next).run s = (x.run s).andThen fun a => (next a).run :=
  rfl

@[simp]
theorem run_ite (c : Prop) [Decidable c] (x y : Operation σ ε α) :
    (if c then x else y).run s = if c then x.run s else y.run s := by
  split <;> rfl

@[simp]
theorem run_current : (current : Operation σ ε σ).run s = ⟨.ok s, s, []⟩ :=
  rfl

@[simp]
theorem run_modify (f : σ → σ) : (modify f : Operation σ ε Unit).run s = ⟨.ok (), f s, []⟩ :=
  rfl

@[simp]
theorem run_tell (told : List ε) : (tell told : Operation σ ε Unit).run s = ⟨.ok (), s, told⟩ :=
  rfl

@[simp]
theorem run_emit (e : ε) : (emit e : Operation σ ε Unit).run s = ⟨.ok (), s, [e]⟩ :=
  rfl

@[simp]
theorem run_stop (why : Stop) : (stop why : Operation σ ε α).run s = ⟨.error why, s, []⟩ :=
  rfl

@[simp]
theorem run_fail (e : Errno) : (fail e : Operation σ ε α).run s = ⟨.error (.failed e), s, []⟩ :=
  rfl

@[simp]
theorem run_ofExcept_ok (a : α) :
    (ofExcept (.ok a) : Operation σ ε α).run s = ⟨.ok a, s, []⟩ :=
  rfl

@[simp]
theorem run_ofExcept_error (f : Fault) :
    (ofExcept (.error f) : Operation σ ε α).run s = ⟨.error (.broken f), s, []⟩ :=
  rfl

variable {s}

theorem run_update_ok {f : σ → Except Fault σ} {s' : σ} (h : f s = .ok s') :
    (update f : Operation σ ε Unit).run s = ⟨.ok (), s', []⟩ := by
  simp [run, update, h]

theorem run_update_error {f : σ → Except Fault σ} {fault : Fault} (h : f s = .error fault) :
    (update f : Operation σ ε Unit).run s = ⟨.error (.broken fault), s, []⟩ := by
  simp [run, update, h]

theorem run_transition_ok {f : σ → Except Fault α × σ} {a : α} {s' : σ} (h : f s = (.ok a, s')) :
    (transition f : Operation σ ε α).run s = ⟨.ok a, s', []⟩ := by
  simp [run, transition, h]

theorem run_transition_error {f : σ → Except Fault α × σ} {fault : Fault} {s' : σ}
    (h : f s = (.error fault, s')) :
    (transition f : Operation σ ε α).run s = ⟨.error (.broken fault), s', []⟩ := by
  simp [run, transition, h]

@[simp]
theorem state_attempt (x : Operation σ ε α) : (x.attempt.run s).state = (x.run s).state := by
  unfold attempt run
  dsimp only
  split <;> rfl

@[simp]
theorem run_settle_ok (a : α) :
    (settle (.ok a) : Operation σ ε α).run s = ⟨.ok a, s, []⟩ :=
  rfl

@[simp]
theorem run_settle_error (e : Errno) :
    (settle (.error e) : Operation σ ε α).run s = ⟨.error (.failed e), s, []⟩ :=
  rfl

@[simp]
theorem run_zoom (part : τ → σ) (put : σ → τ → τ) (wrap : ε → δ) (x : Operation σ ε α) (t : τ) :
    (x.zoom part put wrap).run t =
      ⟨(x.run (part t)).result, put (x.run (part t)).state t,
        (x.run (part t)).events.map wrap⟩ :=
  rfl

end run

end Operation
end ProcessLife
