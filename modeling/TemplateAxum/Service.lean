import TemplateAxum.Serve

/-!
# The service

All requests together: any number of them in flight, each between two calls, over one world. A `Run`
is any interleaving of their calls, and what `Serve.lean` proves of the handlers holds of every
request of a run at every moment.
-/

namespace TemplateAxum

open Prog Seen

abbrev HeroJob := Job Request Op Op.Ans Empty Response

abbrev Service := Pool World Request Op Op.Ans Empty Response

namespace Service

variable [Lowercase] (env : Env)

def Initial (s : Service) : Prop := s.shared.Initial env.settings.mode ∧ s.jobs = []

abbrev Step : Service → Service → Prop := Pool.Step World.Answers (Request.handle env)

abbrev Run : List Service → Prop := Trace (Initial env) (Step env)

variable {env} {s : Service} {past : List Service}

theorem Run.inv (h : Run env (s :: past)) : s.shared.repo.Inv :=
  Pool.shared_invariant (I := fun w : World => w.repo.Inv) (fun _ hs => hs.1.inv)
    (fun _ _ _ _ => World.inv_of_answers) h

/-- The backend is the one of the mode. -/
theorem Run.isMemory (h : Run env (s :: past)) : s.shared.repo.isMemory = decide (env.settings.mode = .mock) :=
  Pool.shared_invariant (I := fun w : World => w.repo.isMemory = decide (env.settings.mode = .mock))
    (fun _ hs => hs.1.isMemory) (fun _ _ _ _ hI hans => (World.isMemory_of_answers hans).trans hI) h

variable {i : Nat} {job : Job Request Op Op.Ans Empty Response}

theorem Run.sat (hcrud : env.crud.Documented) (haxum : env.axum.Documented) (h : Run env (s :: past))
    (hjob : s.jobs[i]? = some job) :
    Sat (Permits env job.request) (Concluded env job.request) (fun _ _ => False) job.history job.prog :=
  Pool.sat (sat_handle hcrud haxum) (fun _ hs => hs.2) h hjob

theorem Run.permits (hcrud : env.crud.Documented) (haxum : env.axum.Documented) (h : Run env (s :: past))
    (hjob : s.jobs[i]? = some job) {op : Op} {k : op.Ans → Prog Op Op.Ans Empty Response}
    (hprog : job.prog = .call op k) : Permits env job.request job.history op := by
  have := h.sat hcrud haxum hjob
  rw [hprog] at this
  exact this.1

theorem Run.concluded (hcrud : env.crud.Documented) (haxum : env.axum.Documented) (h : Run env (s :: past))
    (hjob : s.jobs[i]? = some job) {response : Response} (hprog : job.prog = .ret response) :
    Concluded env job.request job.history response := by
  have := h.sat hcrud haxum hjob
  rw [hprog] at this
  exact this

end Service
end TemplateAxum
