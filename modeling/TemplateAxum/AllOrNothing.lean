import TemplateAxum.Reference

/-!
# A write with its event

What a write request does to the repository and to the event log when it runs from a reachable state:
either all of it (`Applied`), or nothing (`Untouched`). It is all or nothing unless it `Fails`: a
`create` that passes its checks when the id counter is at its end panics, and the web router's
redirect is an error, after the write, when the token it repeats cannot stand in a header.
-/

namespace TemplateAxum

open Prog Seen

variable [Lowercase] {env : Env} {request : Request}

/-! ### The two outcomes -/

/-- The change that `op` asks for has been made, to the rows `ids`. -/
def Repo.Performed (repo : Repo) (op : WriteOp) (ids : List Int32) (repo' : Repo) : Prop :=
  Finds repo.rows op ∧ ∃ newId stamps, (op.change repo.chooses newId stamps).Fresh repo.rows ∧
    repo'.rows = (op.change repo.chooses newId stamps).run repo.rows ∧
    ids = ((op.change repo.chooses newId stamps).reported repo.rows).map Model.id

structure Applied (env : Env) (request : Request) (w w' : World) (response : Response) : Prop where
  write : ∃ op ids, request.Asks env op ∧ w.repo.Performed op ids w'.repo ∧
    w'.log = w.log ++ [⟨heroEventResource, op.action, ids⟩]
  succeeded : request.Succeeded response

structure Untouched (env : Env) (request : Request) (w w' : World) (response : Response) : Prop where
  repo : w'.repo = w.repo
  log : w'.log = w.log
  refused : request.Refused env response

/-- The request is answered, and either all of it was done or nothing. -/
def AllOrNothing (env : Env) (w : World) (request : Request) : Prop :=
  Ends World.Answers (fun w' _ result => ∃ response, result = .ok response ∧
    Xor (Applied env request w w' response) (Untouched env request w w' response)) w [] (request.handle env)

/-- The request passes its checks, and then the counter overflows, or the write finds its record and
the redirect cannot be sent. -/
def Fails (env : Env) (repo : Repo) (request : Request) : Prop :=
  ∃ op, Passes env request op ∧
    (op.isCreate = true ∧ repo.Exhausted ∨
      request.isWeb = true ∧ Repo.Finds repo.rows op ∧
        ∃ token, request.token? env = some token ∧ HeaderValue.accepts (formLocation token) = false)

theorem Applied.not_untouched {w w' : World} {response response' : Response} (ha : Applied env request w w' response) :
    ¬ Untouched env request w w' response' := by
  intro hu
  rcases ha.write with ⟨op, ids, -, -, hlog⟩
  rw [hu.log] at hlog
  cases List.self_eq_append_right.1 hlog

/-! ### What the calls have done -/

/-- Where a request that started at `w` has brought the world to. -/
structure Follows (env : Env) (w w' : World) (h : Seen) : Prop where
  inv : w'.repo.Inv
  limit : ∀ addr, ⟨Op.check heroWriteRateScope addr env.settings.rateLimitHeroWritePerMinute 60, .ok ()⟩ ∈ h →
    1 ≤ env.settings.rateLimitHeroWritePerMinute
  idle : written h = [] → w'.repo = w.repo
  done : ∀ op answer, written h = [(op, answer)] → w.repo.Performed op (op.reports answer) w'.repo
  log : w'.log = w.log ++ published h

theorem log_of_answers {w w' : World} {op : Op} {answer : op.Ans} (ha : w.Answers op answer w') :
    w'.log = w.log ++ (Op.published? ⟨op, answer⟩).toList := by
  cases op with
  | repo c => rcases ha with ⟨repo', -, rfl⟩; exact (List.append_nil _).symm
  | check scope clientIp limit windowSecs => rcases ha with ⟨limiter', -, rfl⟩; exact (List.append_nil _).symm
  | publish resource action ids => cases ha; rfl
  | fetchJwks => cases ha; exact (List.append_nil _).symm
  | unixTime => cases ha; exact (List.append_nil _).symm

/-- A write has been performed, and is seen, or the repository is as it was. -/
theorem written_of_answers {w w' : World} (h : w.repo.Inv) {op : Op} {answer : op.Ans} (ha : w.Answers op answer w') :
    (Op.written? ⟨op, answer⟩ = none ∧ w'.repo = w.repo) ∨
      ∃ o a, op = .repo (.write o) ∧ Op.written? ⟨op, answer⟩ = some (o, a) ∧
        w.repo.Performed o (o.reports a) w'.repo := by
  by_cases hop : ∃ o, op = .repo (.write o)
  · rcases hop with ⟨o, rfl⟩
    rcases ha with ⟨repo', hrepo, rfl⟩
    rcases (Repo.answers_write h hrepo).2 with ⟨rfl, err, rfl⟩ | ⟨r, newId, stamps, rfl, hwrote⟩
    · exact .inl ⟨rfl, rfl⟩
    · cases hperf : (o.pack r).performed with
      | false => exact .inl ⟨by simp [Op.written?, RepoCall.written?, hperf], hwrote.eq_of_not_performed h hperf⟩
      | true =>
        refine .inr ⟨o, o.pack r, rfl, by simp [Op.written?, RepoCall.written?, hperf], ?_⟩
        refine ⟨(hwrote.performed_iff h).1 hperf, newId, stamps, hwrote.fresh, hwrote.rows, ?_⟩
        rw [hwrote.answer]
        exact WriteOp.reports_answer h.keyed _ _ _ _
  · refine .inl ⟨?_, World.repo_of_answers ha fun o heq => hop ⟨o, heq⟩⟩
    cases op with
    | repo c =>
      cases c with
      | write o => exact absurd ⟨o, rfl⟩ hop
      | _ => rfl
    | _ => rfl

theorem Follows.start {w : World} (h : w.repo.Inv) : Follows env w w [] :=
  ⟨h, fun _ hmem => (by cases hmem), fun _ => rfl, fun _ _ hw => (by cases hw), (List.append_nil _).symm⟩

/-- One call of a handler that meets its specification. -/
theorem Follows.step {w w' w'' : World} {h : Seen} {op : Op} {answer : op.Ans} (hf : Follows env w w' h)
    (hp : Permits env request h op) (ha : w'.Answers op answer w'') : Follows env w w'' (h ++ [⟨op, answer⟩]) := by
  have hlog : w''.log = w.log ++ published (h ++ [⟨op, answer⟩]) := by
    rw [log_of_answers ha, hf.log, published_append, List.append_assoc]
    cases hpub : Op.published? ⟨op, answer⟩ <;> simp [published, hpub]
  have hlimit : ∀ addr, ⟨Op.check heroWriteRateScope addr env.settings.rateLimitHeroWritePerMinute 60, .ok ()⟩ ∈
      h ++ [⟨op, answer⟩] → 1 ≤ env.settings.rateLimitHeroWritePerMinute := by
    intro addr hmem
    rcases List.mem_append.1 hmem with hmem | hmem
    · exact hf.limit addr hmem
    · cases List.mem_singleton.1 hmem
      rcases ha with ⟨limiter', hcheck, -⟩
      exact hcheck.limit_pos
  rcases written_of_answers hf.inv ha with ⟨hnone, hrepo⟩ | ⟨o, a, rfl, hsome, hperf⟩
  · have hw : written (h ++ [⟨op, answer⟩]) = written h := by simp [written, hnone]
    refine ⟨World.inv_of_answers hf.inv ha, hlimit, ?_, ?_, hlog⟩
    · intro hnil
      exact hrepo.trans (hf.idle (hw.symm.trans hnil))
    · intro o a hdone
      rw [hrepo]
      exact hf.done o a (hw.symm.trans hdone)
  · -- the one write, of a request that was idle before it
    have hidle : written h = [] := hp.1.written
    have hw : written (h ++ [⟨_, answer⟩]) = [(o, a)] := by
      rw [written_append, hidle]; simp [written, hsome]
    refine ⟨World.inv_of_answers hf.inv ha, hlimit, ?_, ?_, hlog⟩
    · intro hnil
      rw [hw] at hnil
      cases hnil
    · intro o' a' hdone
      cases hw.symm.trans hdone
      rw [← hf.idle hidle]
      exact hperf

theorem Follows.limit_pos {w w' : World} {h : Seen} {op : WriteOp} (hf : Follows env w w' h)
    (hent : Entitled env request op h) : 1 ≤ env.settings.rateLimitHeroWritePerMinute := by
  rcases hent.granted with ⟨ownerId, -, hgranted⟩
  rcases hgranted.rate with ⟨addr, hmem⟩
  exact hf.limit addr hmem

/-! ### Nothing fails -/

omit [Lowercase] in
/-- A request that is entitled to a `create` and meets a full counter fails. -/
theorem Repo.Exhausted.fails {repo : Repo} {h : Seen} {op : WriteOp} (hfull : repo.Exhausted)
    (hmemory : repo.isMemory = decide (env.settings.mode = .mock)) (hcreate : op.isCreate = true)
    (hent : Entitled env request op h) (hlimit : 1 ≤ env.settings.rateLimitHeroWritePerMinute) :
    Fails env repo request := by
  have hmock : env.settings.mode = .mock := by
    cases repo with
    | memory repo => exact of_decide_eq_true hmemory.symm
    | seaOrm db => exact absurd hfull id
  exact ⟨op, hent.passes hmock hlimit, .inl ⟨hcreate, hfull⟩⟩

omit [Lowercase] in
/-- A token that cannot stand in a header has been accepted under `Mode::Mock` only. -/
theorem Entitled.mock {h : Seen} {op : WriteOp} {token : String} (htokens : env.tokens.Documented)
    (hent : Entitled env request op h) (htoken : request.token? env = some token)
    (hloc : HeaderValue.accepts (formLocation token) = false) : env.settings.mode = .mock := by
  by_contra hmode
  rcases hent.granted with ⟨ownerId, -, ⟨⟨claims, ⟨token', seg, htoken', -, hret⟩, -⟩, -⟩⟩
  cases htoken.symm.trans htoken'
  rw [accepts_formLocation (isTokenChar_of_accepted htokens hmode hret)] at hloc
  cases hloc

theorem allOrNothing_of_not_fails (hcrud : env.crud.Documented) (haxum : env.axum.Documented)
    (htokens : env.tokens.Documented) (hxml : ∀ root view err, env.xml.toStringWithRoot root view ≠ .error err)
    {w : World} (hinv : w.repo.Inv) (hmemory : w.repo.isMemory = decide (env.settings.mode = .mock))
    (hwrite : request.isWrite = true) (hok : ¬ Fails env w.repo request) : AllOrNothing env w request := by
  have answered : ∀ w' h op, Follows env w w' h → Permits env request h op →
      ∃ answer w'', w'.Answers op answer w'' := by
    intro w' h op hf hp
    refine World.exists_answers hf.inv op ?_
    rintro o rfl hcreate hfull
    obtain ⟨hidle, hent⟩ := hp
    rw [hf.idle hidle.written] at hfull
    exact hok (hfull.fails hmemory hcreate hent (hf.limit_pos hent))
  refine ((sat_handle hcrud haxum request).ends answered
    (fun _ _ _ _ _ hf hp ha => hf.step hp ha) (.start hinv)).mono ?_
  rintro w' h (e | response) ⟨hf, hend⟩
  · cases e
  refine ⟨response, rfl, ?_⟩
  rcases hend with ⟨hidle, hrefused⟩ | ⟨op, ⟨⟨answer, hwritten, hpublished⟩, hent⟩, hresponse⟩
  · have hu : Untouched env request w w' response := by
      refine ⟨hf.idle hidle.written, ?_, hrefused hwrite⟩
      rw [hf.log, hidle.published, List.append_nil]
    exact .inr ⟨hu, fun ha => ha.not_untouched hu⟩
  · have hperf := hf.done op answer hwritten
    rcases hresponse with hsucc | ⟨-, hbotched⟩
    · have ha : Applied env request w w' response :=
        ⟨⟨op, _, hent.asks, hperf, by rw [hf.log, hpublished]; rfl⟩, hsucc⟩
      exact .inl ⟨ha, ha.not_untouched⟩
    · unfold Request.Botched at hbotched
      split at hbotched
      · rename_i hweb
        rcases hbotched with ⟨token, htoken, hloc⟩
        have hpasses := hent.passes (hent.mock htokens htoken hloc) (hf.limit_pos hent)
        exact absurd ⟨op, hpasses, .inr ⟨hweb, hperf.1, token, htoken, hloc⟩⟩ hok
      · rcases hbotched with ⟨root, view, err, herr⟩
        exact absurd herr (hxml root view err)

/-! ### A failure shows -/

/-- The rate check of a passing request is answered in time, and nothing else has changed. -/
theorem Passes.past_check {op : WriteOp} {w : World} {addr : String} {seg : Seen} {r : Except Empty Response}
    {P : World → Seen → Except Empty Response → Prop} {p : Prog Op Op.Ans Empty Response} (hp : Passes env request op)
    (hends : Ends World.Answers P w [] p)
    (hret : p.Returns (⟨.check heroWriteRateScope addr env.settings.rateLimitHeroWritePerMinute 60, .ok ()⟩ :: seg) r) :
    ∃ limiter h q, Ends World.Answers P { w with limiter } h q ∧ q.Returns seg r := by
  rcases RateLimiter.checks_ok w.limiter heroWriteRateScope addr 60 hp.limit with ⟨limiter, hcheck⟩
  rcases hends.step hret ⟨limiter, hcheck, rfl⟩ with ⟨q, hq, hret⟩
  exact ⟨limiter, _, q, hq, hret⟩

/-- A `create` at the end of the counter is not answered. -/
theorem Passes.not_allOrNothing_of_exhausted (hcrud : env.crud.Documented) {w : World} (hinv : w.repo.Inv)
    {op : WriteOp} (hp : Passes env request op) (hcreate : op.isCreate = true) (hfull : w.repo.Exhausted) :
    ¬ AllOrNothing env w request := by
  intro hall
  obtain ⟨r, hr⟩ : ∃ r : op.Result, (op.pack r).performed = true := by
    cases op with
    | create ownerId data => exact ⟨data.row 0 ownerId 0, rfl⟩
    | _ => cases hcreate
  rcases hp.returns hcrud (.inl hcreate) hr with ⟨addr, response, hret, -⟩
  rcases hp.past_check hall hret with ⟨limiter, h, q, hends, hret⟩
  rcases hends.exists_answer hret with ⟨answer, w', repo', hrepo, -⟩
  exact Repo.not_answers_of_exhausted hinv hcreate hfull hrepo

/-- A redirect that cannot be sent is answered with an error, after the write and its event. -/
theorem Passes.not_allOrNothing_of_redirect (hcrud : env.crud.Documented) (haxum : env.axum.Documented) {w : World}
    (hinv : w.repo.Inv) (hmemory : w.repo.isMemory = true) {op : WriteOp} (hp : Passes env request op)
    (hroom : op.isCreate = true → ¬ w.repo.Exhausted) (hfinds : Repo.Finds w.repo.rows op)
    (hweb : request.isWeb = true) {token : String} (htoken : request.token? env = some token)
    (hloc : HeaderValue.accepts (formLocation token) = false) : ¬ AllOrNothing env w request := by
  intro hall
  rcases Repo.exists_performed hinv hmemory hroom hfinds with ⟨r, repo', hwrite, hr⟩
  rcases hp.returns hcrud (.inr hweb) hr with ⟨addr, response, hret, hredirect⟩
  rcases hp.past_check hall hret with ⟨limiter, h, q, hends, hret⟩
  rcases hends.step hret ⟨repo', hwrite, rfl⟩ with ⟨q, hends, hret⟩
  rcases hends.step hret rfl with ⟨q, hends, hret⟩
  rcases hends.end hret with ⟨_, heq, hxor⟩
  cases heq
  rcases hxor with ⟨ha, -⟩ | ⟨hu, -⟩
  · have hstatus := ha.succeeded
    rw [Request.Succeeded, if_pos hweb, hredirect token hweb htoken, haxum.redirectTo_err _ hloc] at hstatus
    cases hstatus
  · cases List.append_right_eq_self.1 hu.log

theorem not_allOrNothing_of_fails (hcrud : env.crud.Documented) (haxum : env.axum.Documented) {w : World}
    (hinv : w.repo.Inv) (hmemory : w.repo.isMemory = decide (env.settings.mode = .mock))
    (hfails : Fails env w.repo request) : ¬ AllOrNothing env w request := by
  rcases hfails with ⟨op, hp, hfails⟩
  by_cases hfull : op.isCreate = true ∧ w.repo.Exhausted
  · exact hp.not_allOrNothing_of_exhausted hcrud hinv hfull.1 hfull.2
  · rcases hfails with hfull' | ⟨hweb, hfinds, token, htoken, hloc⟩
    · exact absurd hfull' hfull
    · have hroom : op.isCreate = true → ¬ w.repo.Exhausted := fun hc he => hfull ⟨hc, he⟩
      rw [decide_eq_true hp.mock] at hmemory
      exact hp.not_allOrNothing_of_redirect hcrud haxum hinv hmemory hroom hfinds hweb htoken hloc

theorem allOrNothing_iff (hcrud : env.crud.Documented) (haxum : env.axum.Documented)
    (htokens : env.tokens.Documented) (hxml : ∀ root view err, env.xml.toStringWithRoot root view ≠ .error err)
    {s : Service} {past : List Service} (hrun : Service.Run env (s :: past)) (hwrite : request.isWrite = true) :
    AllOrNothing env s.shared request ↔ ¬ Fails env s.shared.repo request := by
  constructor
  · intro hall hfails
    exact not_allOrNothing_of_fails hcrud haxum hrun.inv hrun.isMemory hfails hall
  · exact allOrNothing_of_not_fails hcrud haxum htokens hxml hrun.inv hrun.isMemory hwrite

/-! ### On the reference -/

omit [Lowercase] in
theorem allOrNothing_iff_alice : let _ := Lowercase.ascii
    AllOrNothing Env.reference Service.fresh.shared (.web .create (createForm aliceQuery)) := by
  intro
  have hxml : ∀ root view err, Env.reference.xml.toStringWithRoot root view ≠ .error err :=
    fun _ _ _ heq => by cases heq
  refine (allOrNothing_iff Craftainer.reference_documented Axum.reference_documented
    (TokenCrates.reference_documented _ _ _) hxml Service.run_fresh rfl).2 ?_
  rintro ⟨op, -, ⟨-, hfull⟩ | ⟨-, -, token, htoken, hloc⟩⟩
  · exact absurd (show (1 : Int32) = Int32.maxValue from hfull) (by decide)
  · rw [createForm_token, alice_token] at htoken
    have hchars : token.toList.all isTokenChar = true := by
      rw [← Option.some.inj htoken, aliceSegment_toList, aliceSegment]
      repeat rw [String.toList_ofList]
      decide +kernel
    exact Bool.eq_false_iff.1 hloc (accepts_formLocation hchars)

/-- The maintainer's token, signed with a line feed. -/
def newlineQuery : String := "token=e30." ++ aliceSegment ++ ".%0A"

omit [Lowercase] in
theorem not_allOrNothing_newline : let _ := Lowercase.ascii
    Service.Run Env.reference [.fresh] ∧
      ¬ AllOrNothing Env.reference Service.fresh.shared (.web .create (createForm newlineQuery)) := by
  intro
  have htoken : Axum.field "token" (Axum.pairs newlineQuery.toList) = some ("e30." ++ aliceSegment ++ ".\n") := by
    rw [newlineQuery, String.toList_append, String.toList_append, aliceSegment]
    repeat rw [String.toList_ofList]
    decide +kernel
  have hchars : ("e30." ++ aliceSegment ++ ".\n").toList = "e30.".toList ++ aliceSegment.toList ++ ".\n".toList := by
    rw [String.toList_append, String.toList_append]
  have hloc : HeaderValue.accepts (formLocation ("e30." ++ aliceSegment ++ ".\n")) = false := by
    refine Bool.eq_false_iff.2 fun h => absurd (accepts_formLocation_iff.1 h '\n' ?_) (by decide)
    rw [hchars, String.toList_ofList]
    simp
  have hfails : Fails Env.reference Service.fresh.shared.repo (.web .create (createForm newlineQuery)) :=
    ⟨_, createForm_passes htoken (by
      rw [hchars, aliceSegment]
      repeat rw [String.toList_ofList]
      decide +kernel), .inr ⟨rfl, trivial, _, (createForm_token _).trans htoken, hloc⟩⟩
  exact ⟨Service.run_fresh, not_allOrNothing_of_fails Craftainer.reference_documented Axum.reference_documented
    (Service.Run.inv Service.run_fresh) rfl hfails⟩

end TemplateAxum
