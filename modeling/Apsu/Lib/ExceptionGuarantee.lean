/-!
# Member functions that throw

A member function changes its object statement by statement. When a statement throws, the object
stays as the earlier statements left it. Forgetting the object that a throw leaves turns member
functions into plain functions with errors, statement by statement.
-/

namespace ExceptionGuarantee

/-- A member function of an object: it returns or throws, and there is an object in either case. -/
abbrev Method (ε σ α : Type) := ExceptT ε (StateM σ) α

namespace Method

variable {ε σ α β : Type}

/-- What a call returns or throws, and the object that it leaves. -/
def call (method : Method ε σ α) (object : σ) : Except ε α × σ := method.run.run object

/-- A statement that only reads the object. -/
def inspect (read : σ → Except ε α) : Method ε σ α :=
  ExceptT.mk fun object => (read object, object)

/-- A statement that changes the object, or throws before it does. -/
def change (step : σ → Except ε σ) : Method ε σ Unit :=
  ExceptT.mk fun object => match step object with
    | .ok after => (.ok (), after)
    | .error fault => (.error fault, object)

/-- The call without the object that a throw leaves. -/
def returned (method : Method ε σ α) (object : σ) : Except ε (α × σ) :=
  match method.call object with
  | (.ok value, after) => .ok (value, after)
  | (.error fault, _) => .error fault

/-! ## Calls of composed functions -/

/-- Returning a value leaves the object. -/
@[simp] theorem call_pure (value : α) (object : σ) :
    (pure value : Method ε σ α).call object = (.ok value, object) := rfl

/-- Throwing leaves the object. -/
@[simp] theorem call_throw (fault : ε) (object : σ) :
    (throw fault : Method ε σ α).call object = (.error fault, object) := rfl

/-- Reading leaves the object. -/
@[simp] theorem call_inspect (read : σ → Except ε α) (object : σ) :
    (inspect read).call object = (read object, object) := rfl

/-- A sequence stops at the first throw. -/
theorem call_bind (first : Method ε σ α) (next : α → Method ε σ β) (object : σ) :
    (first >>= next).call object = match first.call object with
      | (.ok value, after) => (next value).call after
      | (.error fault, after) => (.error fault, after) := by
  change (match first object with
    | (result, after) => ExceptT.bindCont next result after : Except ε β × σ) = _
  cases reached : first.call object with
  | mk result after =>
    change first object = _ at reached
    rw [reached]
    cases result with
    | ok value => rfl
    | error fault => rfl

/-! ## Forgetting the object after a throw -/

/-- A call that returns is known without the objects of the calls that throw. -/
theorem returned_ok {method : Method ε σ α} {object after : σ} {value : α} :
    method.returned object = .ok (value, after) ↔ method.call object = (.ok value, after) := by
  rw [returned]
  cases reached : method.call object with
  | mk result left =>
    cases result with
    | ok other =>
      constructor
      · intro same
        cases same
        rfl
      · intro same
        cases same
        rfl
    | error fault => exact ⟨nofun, nofun⟩

/-- Returning a value. -/
@[simp] theorem returned_pure (value : α) (object : σ) :
    (pure value : Method ε σ α).returned object = .ok (value, object) := rfl

/-- Throwing. -/
@[simp] theorem returned_throw (fault : ε) (object : σ) :
    (throw fault : Method ε σ α).returned object = .error fault := rfl

/-- Reading. -/
theorem returned_inspect (read : σ → Except ε α) (object : σ) :
    (inspect read).returned object = (read object).map fun value => (value, object) := by
  rw [returned, call_inspect]
  cases read object with
  | ok value => rfl
  | error fault => rfl

/-- Changing. -/
theorem returned_change (step : σ → Except ε σ) (object : σ) :
    (change step).returned object = (step object).map fun after => ((), after) := by
  rw [returned, show (change step).call object = match step object with
    | .ok after => (.ok (), after)
    | .error fault => (.error fault, object) from rfl]
  cases step object with
  | ok after => rfl
  | error fault => rfl

/-- A sequence of two functions. -/
theorem returned_bind (first : Method ε σ α) (next : α → Method ε σ β) (object : σ) :
    (first >>= next).returned object =
      first.returned object >>= fun result => (next result.1).returned result.2 := by
  rw [returned, call_bind, returned]
  cases first.call object with
  | mk result after =>
    cases result with
    | ok value => rfl
    | error fault => rfl

/-- A sequence that begins with a read. -/
theorem returned_inspect_bind (read : σ → Except ε α) (next : α → Method ε σ β) (object : σ) :
    (inspect read >>= next).returned object =
      read object >>= fun value => (next value).returned object := by
  rw [returned_bind, returned_inspect]
  cases read object with
  | ok value => rfl
  | error fault => rfl

/-- A sequence that begins with a change. -/
theorem returned_change_bind (step : σ → Except ε σ) (next : Unit → Method ε σ β) (object : σ) :
    (change step >>= next).returned object =
      step object >>= fun after => (next ()).returned after := by
  rw [returned_bind, returned_change]
  cases step object with
  | ok after => rfl
  | error fault => rfl

/-- A loop of changes. -/
theorem returned_forM {ι : Type} (inputs : List ι) (step : ι → σ → Except ε σ) (object : σ) :
    (inputs.forM fun input => change (step input)).returned object =
      (inputs.foldlM (fun object input => step input object) object).map fun after =>
        ((), after) := by
  induction inputs generalizing object with
  | nil => rfl
  | cons input rest ih =>
    change (change (step input) >>= fun _ =>
      rest.forM fun input => change (step input)).returned object = _
    rw [returned_change_bind, List.foldlM_cons]
    cases step input object with
    | ok after => exact ih after
    | error fault => rfl

end Method

end ExceptionGuarantee
