import VideoConfig.Proofs.Attempt

/-!
# Outcomes of attempts

What an attempt comes to, without the cause for which an input is refused: a result, a
refusal, or the end of the run. Two attempts have the same outcome exactly if they agree in
their results and in whether they abandon the run.
-/

namespace VideoConfig

variable {cause cause' result result' : Type}

def outcome (attempt : Attempt cause result) : Attempt Unit result :=
  attempt.mapError (Failure.map fun _ => ())

@[simp] theorem outcome_ok (value : result) :
    outcome (.ok value : Attempt cause result) = .ok value := rfl

@[simp] theorem outcome_refused (reason : cause) :
    outcome (.error (.refused reason) : Attempt cause result) = .error (.refused ()) := rfl

@[simp] theorem outcome_abandoned :
    outcome (.error .abandoned : Attempt cause result) = .error .abandoned := rfl

theorem outcome_eq_ok {attempt : Attempt cause result} {value : result} :
    outcome attempt = .ok value <-> attempt = .ok value :=
  mapError_eq_ok

theorem outcome_eq_abandoned {attempt : Attempt cause result} :
    outcome attempt = .error .abandoned <-> attempt = .error .abandoned := by
  rcases attempt with (_ | _) | _ <;> simp

theorem outcome_bind (attempt : Attempt cause result)
    (next : result -> Attempt cause result') :
    outcome (attempt >>= next) = outcome attempt >>= fun value => outcome (next value) := by
  rcases attempt with (_ | _) | _ <;> rfl

theorem outcome_map (attempt : Attempt cause result) (change : result -> result') :
    outcome (attempt.map change) = (outcome attempt).map change := by
  rcases attempt with (_ | _) | _ <;> rfl

theorem outcome_mapError (attempt : Attempt cause result) (retell : cause -> cause') :
    outcome (attempt.mapError (Failure.map retell)) = outcome attempt := by
  rcases attempt with (_ | _) | _ <;> rfl

theorem outcome_congr {attempt : Attempt cause result} {attempt' : Attempt cause' result}
    (hok : forall value, attempt = .ok value <-> attempt' = .ok value)
    (habandoned : attempt = .error .abandoned <-> attempt' = .error .abandoned) :
    outcome attempt = outcome attempt' := by
  rcases attempt with (reason | _) | value
  · rcases attempt' with (reason' | _) | value'
    · rfl
    · cases habandoned.mpr rfl
    · cases (hok value').mpr rfl
  · rw [habandoned.mp rfl]
    rfl
  · rw [(hok value).mp rfl]
    rfl

end VideoConfig
