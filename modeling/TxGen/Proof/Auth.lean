import TxGen.Lib.Slots
import TxGen.Proof.Body

/-!
# Requests without the token change nothing

A service that is sent requests without the admin token is compared with one that is not
sent them. `Service.visible` leaves the handlers of such requests out of a service. Every
step of the first service is, seen that way, a step of the second one or none at all
(`visible_step`), so that the engine, the rate, the configuration and all other answers
are the same (`unauthorized_requests_inert`).

The server compares hashes. That it takes no other header than the one with the token
(`authorized_eq_bears`) rests on there being no second token of the same hash among the
requests.
-/

namespace TxGen

open Lib

variable {Hash : Type} {sdk : SDK Hash}

namespace Service

/-- The service without the handlers of unauthorized requests. -/
def visible (s : Service Hash) : Service Hash :=
  { s with handlers := s.handlers.filter (·.post.authorized) }

/-- Handlers of unauthorized requests have not started or have answered 401. -/
def Refusing (s : Service Hash) : Prop :=
  ∀ h ∈ s.handlers, h.post.authorized = false →
    h.pc = .received ∨ h.pc = .done (.error 401 "unauthorized")

theorem receive_unauthorized (c : ServerConfig) {p : Post} (hp : p.authorized = false) :
    c.receive p = .done (.error 401 "unauthorized") := by
  rw [ServerConfig.receive, Post.prepare, if_pos hp]

theorem visible_reap (s : Service Hash) : s.reap.visible = s.visible.reap := by
  rw [reap, reap, show s.visible.live = s.live from rfl]
  split
  · rfl
  · rfl

/-! ## Handlers -/

section Handle

variable {s : Service Hash} {q : Proc Hash} {i : ℕ} {h : Handler}

theorem visible_setPc (hi : s.handlers[i]? = some h) (ha : h.post.authorized = true)
    (pc : HandlerPc) :
    (s.setPc i h pc).visible =
      s.visible.setPc ((s.handlers.take i).countP (·.post.authorized)) h pc := by
  have hset := filter_set_of_pos (p := fun x : Handler => x.post.authorized) (b := { h with pc })
    hi ha ha
  simp only [visible, setPc, hset]

/-- The steps of a handler of an authorized request are seen. -/
theorem visible_handle_authorized (hi : s.handlers[i]? = some h) (ha : h.post.authorized = true) :
    (s.handle sdk q i h).visible =
      s.visible.handle sdk q ((s.handlers.take i).countP (·.post.authorized)) h := by
  have hset := visible_setPc hi ha
  rw [handle, handle]
  cases h.pc with
  | received => exact hset _
  | configure req =>
    dsimp only
    cases q.configureBootstrap req.update with
    | error e => exact hset _
    | ok q' =>
      dsimp only
      rw [← hset]
      rfl
  | copy req cfg =>
    dsimp only
    rw [← hset]
    rfl
  | setTPS tps body =>
    dsimp only
    rw [← hset]
    rfl
  | done r => rfl

/-- Those of other handlers are not. -/
theorem visible_handle_unauthorized (hs : s.Refusing) (hi : s.handlers[i]? = some h)
    (ha : h.post.authorized = false) : (s.handle sdk q i h).visible = s.visible := by
  rw [handle]
  rcases hs h (List.mem_of_getElem? hi) ha with hpc | hpc
  · have hset := filter_set_of_neg (p := fun x : Handler => x.post.authorized)
      (b := { h with pc := s.cfg.receive h.post }) hi ha ha
    rw [hpc]
    simp only [visible, setPc, hset]
  · rw [hpc]

theorem Refusing.setPc (hs : s.Refusing) {pc : HandlerPc}
    (hpc : h.post.authorized = false → pc = .received ∨ pc = .done (.error 401 "unauthorized")) :
    (s.setPc i h pc).Refusing :=
  forall_set hs hpc

theorem Refusing.handle (hs : s.Refusing) (hi : s.handlers[i]? = some h) :
    (s.handle sdk q i h).Refusing := by
  -- past the first step a handler serves an authorized request
  have hauth : h.pc ≠ .received → (∀ r, h.pc ≠ .done r) → h.post.authorized ≠ false := by
    intro hne hne' ha
    rcases hs h (List.mem_of_getElem? hi) ha with hpc | hpc
    · exact hne hpc
    · exact hne' _ hpc
  rw [Service.handle]
  cases hpc : h.pc with
  | received => exact hs.setPc fun ha => .inr (receive_unauthorized _ ha)
  | done r => exact hs
  | configure req =>
    have hauth := hauth (by simp [hpc]) (by simp [hpc])
    dsimp only
    cases q.configureBootstrap req.update with
    | error e => exact hs.setPc fun ha => absurd ha hauth
    | ok q' => exact forall_set hs fun ha => absurd ha hauth
  | copy req cfg =>
    have hauth := hauth (by simp [hpc]) (by simp [hpc])
    exact forall_set hs fun ha => absurd ha hauth
  | setTPS tps body =>
    have hauth := hauth (by simp [hpc]) (by simp [hpc])
    exact forall_set hs fun ha => absurd ha hauth

end Handle

end Service

/-! ## Runs -/

/-- The event comes from outside: handlers take their steps by themselves. -/
def WireEvent.arrives : WireEvent Hash → Bool
  | .handle _ => false
  | _ => true

/-- The header is `Bearer` and the admin token, and there is one. -/
def HttpPost.bears (adminToken : Bytes) (p : HttpPost) : Bool :=
  adminToken ≠ [] && p.authorization = ascii "Bearer " ++ adminToken

/-- It is not a request without the token. -/
def WireEvent.admitted (adminToken : Bytes) : WireEvent Hash → Bool
  | .post p => p.bears adminToken
  | _ => true

/-- No request has another token with the hash of the admin token. -/
def NoCollision (lib : Library) (adminToken : Bytes) (es : List (WireEvent Hash)) : Prop :=
  ∀ p, .post p ∈ es → ∀ token, p.authorization = ascii "Bearer " ++ token →
    lib.sha256 token = lib.sha256 adminToken → token = adminToken

theorem cut_eq_some {pre s t : Bytes} : cut pre s = some t ↔ s = pre ++ t := by
  rw [cut]
  split_ifs with hpre
  · obtain ⟨t', rfl⟩ := List.isPrefixOf_iff_prefix.1 hpre
    rw [List.drop_left, Option.some.injEq, List.append_cancel_left_eq, eq_comm]
  · refine iff_of_false (by simp) fun hs => hpre ?_
    rw [hs]
    exact List.isPrefixOf_iff_prefix.2 ⟨t, rfl⟩

/-- **The server takes the token and nothing else.** -/
theorem authorized_eq_bears {lib : Library} {adminToken : Bytes} {es : List (WireEvent Hash)}
    (h : NoCollision lib adminToken es) {p : HttpPost} (hp : .post p ∈ es) :
    authorized lib adminToken p.authorization = p.bears adminToken := by
  rw [authorized]
  cases hcut : cut (ascii "Bearer ") p.authorization with
  | none =>
    have hne : p.authorization ≠ ascii "Bearer " ++ adminToken := by
      intro heq
      rw [cut_eq_some.2 heq] at hcut
      cases hcut
    simp [HttpPost.bears, hne]
  | some token =>
    have hheader := cut_eq_some.1 hcut
    have htoken := h p hp token hheader
    rw [HttpPost.bears, hheader]
    by_cases heq : token = adminToken
    · simp [heq]
    · simp [heq, mt htoken heq]

/-- The run of a service that requests come in for. -/
def Service.serves (sdk : SDK Hash) (lib : Library) (adminToken : Bytes) (s : Service Hash)
    (es : List (WireEvent Hash)) : Service Hash :=
  s.steps sdk (es.map (·.decoded lib adminToken))

namespace Service

variable (sdk : SDK Hash) (lib : Library) (adminToken : Bytes) {s : Service Hash}

/-- What holds of all handlers still does after a step when it holds of those that arrive
and after a step of one of them. -/
theorem forall_handlers_step {P : Handler → Prop} {e : ServiceEvent Hash}
    (hs : ∀ h ∈ s.handlers, P h) (harrives : ∀ p, e = .post p → P ⟨p, .received⟩)
    (hhandle : ∀ q i h, s.handlers[i]? = some h → ∀ h' ∈ (s.handle sdk q i h).handlers, P h') :
    ∀ h ∈ (s.step sdk e).handlers, P h := by
  have hreap : ∀ t : Service Hash, t.handlers = s.handlers → ∀ h ∈ t.reap.handlers, P h := by
    intro t ht
    rw [Service.reap]
    split
    · exact fun _ hh => absurd hh List.not_mem_nil
    · rwa [ht]
  cases e with
  | start o initial maxTPS =>
    rw [Service.step]
    split
    · exact hreap _ rfl
    · exact hs
  | engine e =>
    unfold Service.step
    dsimp only
    split
    · exact hs
    · exact hs
    · exact hreap _ rfl
  | post p =>
    rw [Service.step]
    split
    · exact hs
    · split_ifs
      · exact hs
      · refine List.forall_mem_append.2 ⟨hs, ?_⟩
        rw [List.forall_mem_singleton]
        exact harrives p rfl
  | handle i =>
    rw [Service.step]
    split
    case h_1 q h hq hi =>
      split_ifs
      · exact hs
      · exact hhandle q i h hi
    case h_2 => exact hs

theorem Refusing.step (hs : s.Refusing) (e : ServiceEvent Hash) : (s.step sdk e).Refusing :=
  forall_handlers_step sdk hs (fun _ _ _ => .inl rfl) fun _ _ _ hi => hs.handle hi

theorem serves_singleton (s : Service Hash) (e : WireEvent Hash) :
    s.serves sdk lib adminToken [e] = s.step sdk (e.decoded lib adminToken) :=
  rfl

theorem serves_append (s : Service Hash) (ds es : List (WireEvent Hash)) :
    s.serves sdk lib adminToken (ds ++ es) =
      (s.serves sdk lib adminToken ds).serves sdk lib adminToken es := by
  rw [serves, List.map_append, steps, run_append]
  rfl

theorem visible_post (s : Service Hash) (p : Post) :
    (s.step sdk (.post p)).visible =
      if p.authorized then s.visible.step sdk (.post p) else s.visible := by
  unfold Service.step
  dsimp only
  rw [show s.visible.live = s.live from rfl]
  split
  · simp
  · split_ifs
    · rfl
    · rfl
    · simp [visible, *]
    · simp [visible, *]

/-- **A step is seen, or it is one of an unauthorized request.** -/
theorem visible_step (hs : s.Refusing) {e : WireEvent Hash} (he : NoCollision lib adminToken [e]) :
    ∃ es : List (WireEvent Hash),
      es.filter (·.arrives) = ([e].filter (·.arrives)).filter (·.admitted adminToken) ∧
      (s.step sdk (e.decoded lib adminToken)).visible = s.visible.serves sdk lib adminToken es := by
  cases e with
  | start o initial maxTPS =>
    refine ⟨[.start o initial maxTPS], rfl, ?_⟩
    rw [serves_singleton, WireEvent.decoded, Service.step, Service.step]
    rw [show s.visible.live = s.live from rfl]
    split
    · exact visible_reap _
    · rfl
  | engine e =>
    refine ⟨[.engine e], rfl, ?_⟩
    rw [serves_singleton, WireEvent.decoded]
    unfold Service.step
    dsimp only
    split
    · rfl
    · rfl
    · exact visible_reap _
  | post p =>
    have hauth : (p.decoded lib adminToken).authorized = p.bears adminToken :=
      authorized_eq_bears he List.mem_cons_self
    rw [WireEvent.decoded, visible_post, hauth]
    cases hp : p.bears adminToken with
    | true =>
      refine ⟨[.post p], by simp [WireEvent.arrives, WireEvent.admitted, hp], ?_⟩
      rw [if_pos rfl]
      rfl
    | false =>
      refine ⟨[], by simp [WireEvent.arrives, WireEvent.admitted, hp], ?_⟩
      rw [if_neg Bool.false_ne_true]
      rfl
  | handle i =>
    cases hq : s.live.world.proc with
    | none =>
      refine ⟨[], rfl, ?_⟩
      simp only [WireEvent.decoded, Service.step, hq]
      rfl
    | some q =>
      cases hi : s.handlers[i]? with
      | none =>
        refine ⟨[], rfl, ?_⟩
        simp only [WireEvent.decoded, Service.step, hq, hi]
        rfl
      | some h =>
        cases ha : h.post.authorized with
        | false =>
          refine ⟨[], rfl, ?_⟩
          simp only [WireEvent.decoded, Service.step, hq, hi]
          split_ifs
          · rfl
          · exact visible_handle_unauthorized hs hi ha
        | true =>
          refine ⟨[.handle ((s.handlers.take i).countP (·.post.authorized))], rfl, ?_⟩
          have hvisible : s.visible.handlers[(s.handlers.take i).countP (·.post.authorized)]? =
              some h := getElem?_filter hi ha
          have hlive : s.visible.live.world.proc = some q := hq
          rw [serves_singleton]
          simp only [WireEvent.decoded, Service.step, hq, hi, hvisible, hlive]
          split_ifs
          · rfl
          · exact visible_handle_authorized hi ha

/-- Seen without unauthorized requests, a run is a run without them. -/
theorem visible_serves (hs : s.Refusing) {es : List (WireEvent Hash)}
    (hes : NoCollision lib adminToken es) :
    ∃ es' : List (WireEvent Hash),
      es'.filter (·.arrives) = (es.filter (·.arrives)).filter (·.admitted adminToken) ∧
      (s.serves sdk lib adminToken es).visible = s.visible.serves sdk lib adminToken es' := by
  induction es generalizing s with
  | nil => exact ⟨[], rfl, rfl⟩
  | cons e es ih =>
    have hfirst : NoCollision lib adminToken [e] := fun p hp =>
      hes p (List.mem_cons.2 (.inl (List.mem_singleton.1 hp)))
    obtain ⟨ds, hds, hstep⟩ := visible_step sdk lib adminToken hs hfirst
    obtain ⟨ds', hds', hrun⟩ := ih (hs.step sdk (e.decoded lib adminToken))
      fun p hp => hes p (List.mem_cons_of_mem _ hp)
    refine ⟨ds ++ ds', ?_, ?_⟩
    · rw [List.filter_append, hds, hds', ← List.filter_append, ← List.filter_append]
      rfl
    · rw [hstep] at hrun
      rw [serves_append]
      exact hrun

theorem Refusing.serves (hs : s.Refusing) (es : List (WireEvent Hash)) :
    (s.serves sdk lib adminToken es).Refusing := by
  induction es generalizing s with
  | nil => exact hs
  | cons e es ih => exact ih (hs.step sdk _)

/-- A step of a handler keeps its request. -/
theorem forall_post_handle {P : Post → Prop} (hs : ∀ h ∈ s.handlers, P h.post) {q : Proc Hash}
    {i : ℕ} {h : Handler} (hi : s.handlers[i]? = some h) :
    ∀ h' ∈ (s.handle sdk q i h).handlers, P h'.post := by
  have hpost : P h.post := hs h (List.mem_of_getElem? hi)
  rw [Service.handle]
  cases h.pc with
  | received => exact forall_set hs hpost
  | configure req =>
    dsimp only
    split
    · exact forall_set hs hpost
    · exact forall_set hs hpost
  | copy req cfg => exact forall_set hs hpost
  | setTPS tps body => exact forall_set hs hpost
  | done r => exact hs

/-- The handlers of a service serve requests that came in. -/
theorem forall_post_serves {P : Post → Prop} {es : List (WireEvent Hash)}
    (hs : ∀ h ∈ s.handlers, P h.post)
    (hes : ∀ p, .post p ∈ es → P (p.decoded lib adminToken)) :
    ∀ h ∈ (s.serves sdk lib adminToken es).handlers, P h.post := by
  induction es generalizing s with
  | nil => exact hs
  | cons e es ih =>
    refine ih (forall_handlers_step sdk hs (fun p hp => ?_) fun _ _ _ hi => forall_post_handle sdk hs hi)
      fun p hp => hes p (List.mem_cons_of_mem _ hp)
    cases e with
    | post p' =>
      cases hp
      exact hes p' List.mem_cons_self
    | _ => cases hp

end Service

/-- **Requests without the token change nothing.** Whatever requests come in, and however
their handlers and the engine are interleaved, there is a run in which only those arrive
whose header is `Bearer` and the admin token, with all else as it is, after which the
engine, the rate, the configuration and the handlers of the others are the same. Requests
with another header are answered with 401, if they are. -/
theorem unauthorized_requests_inert (sdk : SDK Hash) (lib : Library) (adminToken : Bytes)
    (st : Store Hash) {es : List (WireEvent Hash)} (hsha : NoCollision lib adminToken es) :
    (∃ es' : List (WireEvent Hash),
      es'.filter (·.arrives) = (es.filter (·.arrives)).filter (·.admitted adminToken) ∧
      ((Service.init st).serves sdk lib adminToken es).visible =
        (Service.init st).serves sdk lib adminToken es') ∧
    ∀ h ∈ ((Service.init st).serves sdk lib adminToken es).handlers, ∃ p, .post p ∈ es ∧
      h.post = p.decoded lib adminToken ∧ h.post.authorized = p.bears adminToken ∧
      (p.bears adminToken = false →
        h.pc = .received ∨ h.pc = .done (.error 401 "unauthorized")) := by
  have hinit : (Service.init st).Refusing := fun _ hh => absurd hh List.not_mem_nil
  refine ⟨Service.visible_serves sdk lib adminToken hinit hsha, fun h hh => ?_⟩
  have hpost := Service.forall_post_serves sdk lib adminToken
    (P := fun post => ∃ p, .post p ∈ es ∧ post = p.decoded lib adminToken) (s := Service.init st)
    (fun _ hh => absurd hh List.not_mem_nil) (fun p hp => ⟨p, hp, rfl⟩)
  obtain ⟨p, hp, hdecoded⟩ := hpost h hh
  have hauth : h.post.authorized = p.bears adminToken := by
    rw [hdecoded]
    exact authorized_eq_bears hsha hp
  exact ⟨p, hp, hdecoded, hauth, fun hbears =>
    hinit.serves sdk lib adminToken es h hh (hauth.trans hbears)⟩

/-- A request to stop with another token, while the engine waits for its funding. -/
def Concrete.guess : List (WireEvent Bytes) :=
  .start (Concrete.options 2 2 1) [] 100 :: (Concrete.mains 3).map .engine ++
    [.post ⟨.stop, ascii "Bearer guess", ascii "application/json", []⟩, .handle 0]

open Concrete in
/-- It is as if it had not been made. -/
theorem unauthorized_requests_inert_guess :
    NoCollision plainLibrary (ascii "token") guess ∧
    ∃ es' : List (WireEvent Bytes),
      es'.filter (·.arrives) = (guess.filter (·.arrives)).filter (·.admitted (ascii "token")) ∧
      ((Service.init Store.empty).serves plainSDK plainLibrary (ascii "token") guess).visible =
        (Service.init Store.empty).serves plainSDK plainLibrary (ascii "token") es' := by
  have hsha : NoCollision plainLibrary (ascii "token") guess := fun _ _ _ _ heq => heq
  exact ⟨hsha, (unauthorized_requests_inert plainSDK plainLibrary _ Store.empty hsha).1⟩

end TxGen
