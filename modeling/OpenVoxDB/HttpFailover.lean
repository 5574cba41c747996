import Mathlib
import OpenVoxDB.Run

/-!
# Client fail-over

The terminus sends a query to the servers of a list in turn until one answers. The
index of the server that answered is kept for all requests of the process, and where
reads are sticky the next query begins there. Commands go through the same loop, with
another list.
-/

namespace OpenVoxDB.HttpFailover

/-- What `check_http_response` and `raise_request_error` read of a response. -/
structure Response where
  code : Nat
  body : Option String

inductive ResponseError where
  | serverError
  | notfound
  | other404
  deriving DecidableEq

/-- The exceptions that `with_http_error_logging` distinguishes. -/
inductive RequestException where
  | timeout
  | httpError
  | sslError
  | inventorySearchError
  | commandSubmissionError
  | softWriteFailError
  | puppetError (message : String)
  | other

/-- What comes of one request to one server: the callback returns a response, or raises a
`ResponseError` that holds one, or another exception. -/
inductive Outcome where
  | returned (response : Response)
  | responseError (response : Response)
  | raised (e : RequestException)

structure Config where
  serverUrls : List String
  stickyReadFailover : Bool
  commandBroadcast : Bool
  minSuccessfulSubmissions : Nat

/-- The class variables, and the list of the configuration from which servers are deleted. -/
structure Client where
  lastGoodQueryServerUrlIndex : Nat
  submitOnlyUrlTimeouts : String → Bool
  submitOnlyServerUrls : List String

/-- `raise_request_error`, or an exception that is raised again. -/
inductive Failure where
  | notFoundError (message : String)
  | puppetError (message : String)
  | reraised (e : RequestException)

/-- What an action did: the servers it contacted, and how it ended. -/
structure Attempt where
  client : Client
  contacted : List Nat
  result : Except Failure Response

/-- `check_for_repeated_timeout` -/
def checkForRepeatedTimeout (c : Client) (serverUrl : String) : Client :=
  if serverUrl ∈ c.submitOnlyServerUrls then
    if c.submitOnlyUrlTimeouts serverUrl then
      { c with
        submitOnlyServerUrls := c.submitOnlyServerUrls.filter (· ≠ serverUrl)
        submitOnlyUrlTimeouts := Function.update c.submitOnlyUrlTimeouts serverUrl false }
    else
      { c with submitOnlyUrlTimeouts := Function.update c.submitOnlyUrlTimeouts serverUrl true }
  else c

/-- `e.message =~ /did not match server certificate; expected one of/` -/
def certificateMismatch (message : String) : Bool :=
  decide ("did not match server certificate; expected one of".toList <:+: message.toList)

/-- `with_http_error_logging` of an exception: `none` where it is raised again. -/
def withHttpErrorLogging (c : Client) (serverUrl : String) : RequestException → Option Client
  | .timeout => some (checkForRepeatedTimeout c serverUrl)
  | .puppetError message => if certificateMismatch message then some c else none
  | .other => none
  | _ => some c

/-- A response that is returned clears the timeout of its server. -/
def clearTimeout (c : Client) (serverUrl : String) : Client :=
  if serverUrl ∈ c.submitOnlyServerUrls then
    { c with submitOnlyUrlTimeouts := Function.update c.submitOnlyUrlTimeouts serverUrl false }
  else c

/-- `check_http_response` -/
def checkHttpResponse (response : Response) : Option ResponseError :=
  if response.code ≥ 500 then some .serverError
  else if response.code = 404 then
    if response.body.any (fun body => body.toList.head? = some '{') then some .notfound
    else some .other404
  else none

/-- `raise_request_error` -/
def raiseRequestError (config : Config) (responseError : Option ResponseError)
    (pathSuffix : String) : Failure :=
  let serverUrlStrings := ", ".intercalate config.serverUrls
  if responseError = some .notfound then
    .notFoundError ("Failed to find '" ++ pathSuffix ++
      "' on any of the following 'server_urls': " ++ serverUrlStrings)
  else
    .puppetError ("Failed to execute '" ++ pathSuffix ++ "' on at least " ++
      toString config.minSuccessfulSubmissions ++ " of the following 'server_urls': " ++
      serverUrlStrings)

/-- The indexes of the servers, from the one that answered last. -/
def serverTryOrder (serverCount lastGoodIndex : Nat) : List Nat :=
  (List.range serverCount).map fun i => (i + lastGoodIndex) % serverCount

/-- The loop of `failover_action`, with the last response and its error. -/
def failoverLoop (config : Config) (pathSuffix : String) (serverUrls : List String)
    (outcomes : Nat → Outcome) (first : Option Nat) :
    List Nat → Client → Option Response → Option ResponseError → Attempt
  | [], c, response, responseError =>
    match response, responseError with
    | some response, none => ⟨c, [], .ok response⟩
    | _, _ => ⟨c, [], .error (raiseRequestError config responseError pathSuffix)⟩
  | i :: order, c, response, responseError =>
    let serverUrl := serverUrls.getD i ""
    let answer (c : Client) (response : Response) : Attempt :=
      match checkHttpResponse response with
      | none =>
        ⟨if some i ≠ first then { c with lastGoodQueryServerUrlIndex := i } else c, [i],
          .ok response⟩
      | some e =>
        let rest := failoverLoop config pathSuffix serverUrls outcomes first order c (some response)
          (some e)
        { rest with contacted := i :: rest.contacted }
    match outcomes i with
    | .returned response => answer (clearTimeout c serverUrl) response
    | .responseError response => answer c response
    | .raised e =>
      match withHttpErrorLogging c serverUrl e with
      | none => ⟨c, [i], .error (.reraised e)⟩
      | some c =>
        let rest := failoverLoop config pathSuffix serverUrls outcomes first order c response
          responseError
        { rest with contacted := i :: rest.contacted }

/-- `failover_action` -/
def failoverAction (config : Config) (c : Client) (pathSuffix : String) (serverUrls : List String)
    (sticky : Bool) (outcomes : Nat → Outcome) : Attempt :=
  let lastGoodIndex := if sticky then c.lastGoodQueryServerUrlIndex else 0
  let order := serverTryOrder serverUrls.length lastGoodIndex
  failoverLoop config pathSuffix serverUrls outcomes order.head? order c none none

/-- The loop of `broadcast_action`, with the last response and its error, the last success and
the number of successes. -/
def broadcastLoop (config : Config) (pathSuffix : String) (serverUrls : List String)
    (outcomes : Nat → Outcome) :
    List Nat → Client → Option ResponseError → Option Response → Nat → Attempt
  | [], c, responseError, lastSuccess, successfulSubmitCount =>
    match lastSuccess with
    | some response =>
      if successfulSubmitCount < config.minSuccessfulSubmissions then
        ⟨c, [], .error (raiseRequestError config responseError pathSuffix)⟩
      else ⟨c, [], .ok response⟩
    | none => ⟨c, [], .error (raiseRequestError config responseError pathSuffix)⟩
  | i :: order, c, responseError, lastSuccess, successfulSubmitCount =>
    let serverUrl := serverUrls.getD i ""
    let answer (c : Client) (response : Response) : Attempt :=
      let rest := match checkHttpResponse response with
        | none => broadcastLoop config pathSuffix serverUrls outcomes order c none (some response)
            (successfulSubmitCount + 1)
        | some e => broadcastLoop config pathSuffix serverUrls outcomes order c (some e) lastSuccess
            successfulSubmitCount
      { rest with contacted := i :: rest.contacted }
    match outcomes i with
    | .returned response => answer (clearTimeout c serverUrl) response
    | .responseError response => answer c response
    | .raised e =>
      match withHttpErrorLogging c serverUrl e with
      | none => ⟨c, [i], .error (.reraised e)⟩
      | some c =>
        let rest := broadcastLoop config pathSuffix serverUrls outcomes order c responseError
          lastSuccess successfulSubmitCount
        { rest with contacted := i :: rest.contacted }

/-- `broadcast_action` -/
def broadcastAction (config : Config) (c : Client) (pathSuffix : String) (serverUrls : List String)
    (outcomes : Nat → Outcome) : Attempt :=
  broadcastLoop config pathSuffix serverUrls outcomes (List.range serverUrls.length) c none none 0

inductive RequestMode where
  | query
  | command
  deriving DecidableEq

/-- A request, with what would come of it at the server of each index. -/
structure Request where
  mode : RequestMode
  pathSuffix : String
  outcomes : Nat → Outcome

/-- `action` -/
def action (config : Config) (c : Client) (request : Request) : Attempt :=
  match request.mode with
  | .query =>
    failoverAction config c request.pathSuffix config.serverUrls config.stickyReadFailover
      request.outcomes
  | .command =>
    let submitServerUrls := config.serverUrls ++ c.submitOnlyServerUrls
    if config.commandBroadcast then
      broadcastAction config c request.pathSuffix submitServerUrls request.outcomes
    else failoverAction config c request.pathSuffix submitServerUrls false request.outcomes

/-! ## One action -/

/-- The response without an error code that an outcome holds. -/
def Outcome.good : Outcome → Option Response
  | returned response | responseError response =>
    if checkHttpResponse response = none then some response else none
  | raised _ => none

/-- The loop goes on after this outcome. -/
def Outcome.passed : Outcome → Bool
  | returned response | responseError response => (checkHttpResponse response).isSome
  | raised (.puppetError message) => certificateMismatch message
  | raised .other => false
  | raised _ => true

/-- How the loop can end: at the first good response, at an exception that is raised again, or
after all servers. -/
inductive Course (outcomes : Nat → Outcome) (first : Option Nat) (lastIndex : Nat) :
    List Nat → Attempt → Prop
  | answered {a : Attempt} (before : List Nat) (i : Nat) (after : List Nat) (r : Response) :
      (∀ j ∈ before, (outcomes j).passed) → (outcomes i).good = some r →
        a.contacted = before ++ [i] → a.result = .ok r →
          a.client.lastGoodQueryServerUrlIndex = (if some i ≠ first then i else lastIndex) →
            Course outcomes first lastIndex (before ++ i :: after) a
  | reraised {a : Attempt} (before : List Nat) (i : Nat) (after : List Nat)
      (e : RequestException) :
      (∀ j ∈ before, (outcomes j).passed) → outcomes i = .raised e → (outcomes i).passed = false →
        a.contacted = before ++ [i] → a.result = .error (.reraised e) →
          a.client.lastGoodQueryServerUrlIndex = lastIndex →
            Course outcomes first lastIndex (before ++ i :: after) a
  | failed {a : Attempt} (order : List Nat) (e : Failure) :
      (∀ j ∈ order, (outcomes j).passed) → a.contacted = order → a.result = .error e →
        a.client.lastGoodQueryServerUrlIndex = lastIndex →
          Course outcomes first lastIndex order a

theorem Course.cons {outcomes : Nat → Outcome} {first : Option Nat} {lastIndex : Nat}
    {order : List Nat} {a : Attempt} (h : Course outcomes first lastIndex order a) (i : Nat)
    (hi : (outcomes i).passed) :
    Course outcomes first lastIndex (i :: order) { a with contacted := i :: a.contacted } := by
  cases h with
  | answered before j after r hbefore hj hcontacted hresult hindex =>
    exact .answered (i :: before) j after r (by simpa using ⟨hi, hbefore⟩) hj
      (by simp [hcontacted]) hresult hindex
  | reraised before j after e hbefore hj hpassed hcontacted hresult hindex =>
    exact .reraised (i :: before) j after e (by simpa using ⟨hi, hbefore⟩) hj hpassed
      (by simp [hcontacted]) hresult hindex
  | failed _ e horder hcontacted hresult hindex =>
    exact .failed (i :: order) e (by simpa using ⟨hi, horder⟩) (by simp [hcontacted]) hresult
      hindex

@[simp] theorem clearTimeout_index (c : Client) (serverUrl : String) :
    (clearTimeout c serverUrl).lastGoodQueryServerUrlIndex = c.lastGoodQueryServerUrlIndex := by
  rw [clearTimeout]
  split <;> rfl

theorem checkForRepeatedTimeout_index (c : Client) (serverUrl : String) :
    (checkForRepeatedTimeout c serverUrl).lastGoodQueryServerUrlIndex =
      c.lastGoodQueryServerUrlIndex := by
  rw [checkForRepeatedTimeout]
  split
  · split <;> rfl
  · rfl

/-- An exception is logged or raised again, and keeps the index. -/
theorem withHttpErrorLogging_cases (c : Client) (serverUrl : String) (e : RequestException) :
    (withHttpErrorLogging c serverUrl e = none ∧ (Outcome.raised e).passed = false) ∨
      ∃ c', withHttpErrorLogging c serverUrl e = some c' ∧ (Outcome.raised e).passed ∧
        c'.lastGoodQueryServerUrlIndex = c.lastGoodQueryServerUrlIndex := by
  cases e with
  | timeout => exact .inr ⟨_, rfl, rfl, checkForRepeatedTimeout_index c serverUrl⟩
  | other => exact .inl ⟨rfl, rfl⟩
  | puppetError message =>
    cases h : certificateMismatch message with
    | true => exact .inr ⟨c, by simp [withHttpErrorLogging, h], by simp [Outcome.passed, h], rfl⟩
    | false => exact .inl ⟨by simp [withHttpErrorLogging, h], by simp [Outcome.passed, h]⟩
  | httpError => exact .inr ⟨c, rfl, rfl, rfl⟩
  | sslError => exact .inr ⟨c, rfl, rfl, rfl⟩
  | inventorySearchError => exact .inr ⟨c, rfl, rfl, rfl⟩
  | commandSubmissionError => exact .inr ⟨c, rfl, rfl, rfl⟩
  | softWriteFailError => exact .inr ⟨c, rfl, rfl, rfl⟩

theorem failoverLoop_course (config : Config) (pathSuffix : String) (serverUrls : List String)
    (outcomes : Nat → Outcome) (first : Option Nat) (order : List Nat) (c : Client)
    (response : Option Response) (responseError : Option ResponseError)
    (hresponse : response.isSome → responseError.isSome) :
    Course outcomes first c.lastGoodQueryServerUrlIndex order
      (failoverLoop config pathSuffix serverUrls outcomes first order c response
        responseError) := by
  induction order generalizing c response responseError with
  | nil =>
    unfold failoverLoop
    split
    · simp at hresponse
    · exact .failed [] _ (by simp) rfl rfl rfl
  | cons i order ih =>
    -- what is made of a response, whatever it clears
    have hanswer : ∀ (c' : Client) (r : Response),
        c'.lastGoodQueryServerUrlIndex = c.lastGoodQueryServerUrlIndex →
        (outcomes i = .returned r ∨ outcomes i = .responseError r) →
          Course outcomes first c.lastGoodQueryServerUrlIndex (i :: order)
            (match checkHttpResponse r with
              | none => ⟨if some i ≠ first then { c' with lastGoodQueryServerUrlIndex := i } else c',
                  [i], .ok r⟩
              | some e =>
                { failoverLoop config pathSuffix serverUrls outcomes first order c' (some r)
                    (some e) with
                  contacted := i :: (failoverLoop config pathSuffix serverUrls outcomes first order
                    c' (some r) (some e)).contacted }) := by
      intro c' r hc' houtcome
      cases hcheck : checkHttpResponse r with
      | none =>
        have hgood : (outcomes i).good = some r := by
          obtain h | h := houtcome <;> simp [h, Outcome.good, hcheck]
        refine .answered [] i order r (by simp) hgood rfl rfl ?_
        simp only
        split
        · rfl
        · exact hc'
      | some e =>
        have hpassed : (outcomes i).passed := by
          obtain h | h := houtcome <;> simp [h, Outcome.passed, hcheck]
        rw [← hc']
        exact (ih c' (some r) (some e) (by simp)).cons i hpassed
    rw [failoverLoop]
    cases houtcome : outcomes i with
    | returned r => exact hanswer _ r (clearTimeout_index c _) (.inl houtcome)
    | responseError r => exact hanswer c r rfl (.inr houtcome)
    | raised e =>
      simp only
      obtain ⟨hlog, hpassed⟩ | ⟨c', hlog, hpassed, hc'⟩ :=
        withHttpErrorLogging_cases c (serverUrls.getD i "") e
      · rw [hlog]
        exact .reraised [] i order e (by simp) houtcome (by rw [houtcome, hpassed]) rfl rfl rfl
      · rw [hlog, ← hc']
        exact (ih c' response responseError hresponse).cons i (by rw [houtcome, hpassed])

theorem good_of_passed (o : Outcome) (h : o.passed) : o.good = none := by
  cases o with
  | returned r =>
    obtain ⟨e, he⟩ := Option.isSome_iff_exists.mp h
    simp [Outcome.good, he]
  | responseError r =>
    obtain ⟨e, he⟩ := Option.isSome_iff_exists.mp h
    simp [Outcome.good, he]
  | raised e => rfl

theorem serverTryOrder_nodup (n lastGoodIndex : Nat) : (serverTryOrder n lastGoodIndex).Nodup := by
  apply List.Nodup.map_on _ List.nodup_range
  intro i hi j hj hij
  rw [List.mem_range] at hi hj
  have hmod : i % n = j % n := Nat.ModEq.add_right_cancel' lastGoodIndex hij
  rwa [Nat.mod_eq_of_lt hi, Nat.mod_eq_of_lt hj] at hmod

/-- An action contacts servers in cyclic order, each at most once, up to the first good response;
it returns a good response where one was given, and where no exception was raised again a
server that would have given one is reached. -/
structure FailoverCorrect (serverCount lastGoodIndex : Nat) (outcomes : Nat → Outcome)
    (a : Attempt) : Prop where
  cyclic : ∃ k ≤ serverCount,
    a.contacted = (List.range k).map fun i => (i + lastGoodIndex) % serverCount
  once : a.contacted.Nodup
  stops : ∀ i ∈ a.contacted.dropLast, (outcomes i).good = none
  answer : ∀ r, a.result = .ok r →
    ∃ i, a.contacted.getLast? = some i ∧ (outcomes i).good = some r
  failure : ∀ e, a.result = .error e → ∀ i ∈ a.contacted, (outcomes i).good = none
  complete : (∀ e, a.result ≠ .error (.reraised e)) →
    ∀ i < serverCount, (outcomes i).good ≠ none → ∃ r, a.result = .ok r

theorem cyclic_of_prefix (n lastGoodIndex : Nat) (contacted : List Nat)
    (h : contacted <+: serverTryOrder n lastGoodIndex) :
    (∃ k ≤ n, contacted = (List.range k).map fun i => (i + lastGoodIndex) % n) ∧
      contacted.Nodup := by
  refine ⟨⟨contacted.length, ?_, ?_⟩, (serverTryOrder_nodup n lastGoodIndex).sublist h.sublist⟩
  · simpa [serverTryOrder] using h.length_le
  · have hlength : contacted.length ≤ n := by simpa [serverTryOrder] using h.length_le
    rw [List.prefix_iff_eq_take.mp h, serverTryOrder, ← List.map_take, List.take_range,
      Nat.min_eq_left (by simpa using hlength)]
    simp

theorem mem_serverTryOrder (n lastGoodIndex i : Nat) (hi : i < n) :
    i ∈ serverTryOrder n lastGoodIndex := by
  have hsubset : serverTryOrder n lastGoodIndex ⊆ List.range n := by
    intro j hj
    obtain ⟨k, hk, rfl⟩ := List.mem_map.mp hj
    rw [List.mem_range] at hk ⊢
    exact Nat.mod_lt _ (by omega)
  have hperm := (List.subperm_of_subset (serverTryOrder_nodup n lastGoodIndex) hsubset).perm_of_length_le
    (by simp [serverTryOrder])
  exact hperm.mem_iff.mpr (List.mem_range.mpr hi)

theorem failoverCorrect_of_course (outcomes : Nat → Outcome) (first : Option Nat)
    (lastIndex n lastGoodIndex : Nat) (a : Attempt)
    (h : Course outcomes first lastIndex (serverTryOrder n lastGoodIndex) a) :
    FailoverCorrect n lastGoodIndex outcomes a := by
  have hmem := mem_serverTryOrder n lastGoodIndex
  have hcyclic := cyclic_of_prefix n lastGoodIndex
  generalize serverTryOrder n lastGoodIndex = order at h hmem hcyclic
  cases h with
  | answered before i after r hbefore hi hcontacted hresult hindex =>
    have hstarts : a.contacted <+: before ++ i :: after := ⟨after, by simp [hcontacted]⟩
    refine ⟨(hcyclic _ hstarts).1, (hcyclic _ hstarts).2, ?_, ?_, ?_, ?_⟩
    · intro j hj
      exact good_of_passed _ (hbefore j (by simpa [hcontacted] using hj))
    · intro r' hr'
      rw [hresult] at hr'
      cases hr'
      exact ⟨i, by simp [hcontacted], hi⟩
    · intro e he
      rw [hresult] at he
      cases he
    · exact fun _ _ _ _ => ⟨r, hresult⟩
  | reraised before i after e hbefore hi hpassed hcontacted hresult hindex =>
    have hstarts : a.contacted <+: before ++ i :: after := ⟨after, by simp [hcontacted]⟩
    refine ⟨(hcyclic _ hstarts).1, (hcyclic _ hstarts).2, ?_, ?_, ?_, ?_⟩
    · intro j hj
      exact good_of_passed _ (hbefore j (by simpa [hcontacted] using hj))
    · intro r hr
      rw [hresult] at hr
      cases hr
    · intro e' _ j hj
      rw [hcontacted, List.mem_append, List.mem_singleton] at hj
      obtain hj | rfl := hj
      · exact good_of_passed _ (hbefore j hj)
      · rw [hi]
        rfl
    · intro hno
      exact absurd hresult (hno e)
  | failed _ e horder hcontacted hresult hindex =>
    refine ⟨(hcyclic _ (by rw [hcontacted])).1, (hcyclic _ (by rw [hcontacted])).2, ?_, ?_, ?_, ?_⟩
    · intro j hj
      exact good_of_passed _ (horder j (hcontacted ▸ List.mem_of_mem_dropLast hj))
    · intro r hr
      rw [hresult] at hr
      cases hr
    · intro e' _ j hj
      exact good_of_passed _ (horder j (hcontacted ▸ hj))
    · intro _ i hi hgood
      exact absurd (good_of_passed _ (horder i (hmem i hi))) hgood

theorem failoverAction_course (config : Config) (c : Client) (pathSuffix : String)
    (serverUrls : List String) (sticky : Bool) (outcomes : Nat → Outcome) :
    Course outcomes
      (serverTryOrder serverUrls.length (if sticky then c.lastGoodQueryServerUrlIndex else 0)).head?
      c.lastGoodQueryServerUrlIndex
      (serverTryOrder serverUrls.length (if sticky then c.lastGoodQueryServerUrlIndex else 0))
      (failoverAction config c pathSuffix serverUrls sticky outcomes) :=
  failoverLoop_course config pathSuffix serverUrls outcomes _ _ c none none (by simp)

theorem failoverAction_correct (config : Config) (c : Client) (pathSuffix : String)
    (serverUrls : List String) (sticky : Bool) (outcomes : Nat → Outcome) :
    FailoverCorrect serverUrls.length (if sticky then c.lastGoodQueryServerUrlIndex else 0) outcomes
      (failoverAction config c pathSuffix serverUrls sticky outcomes) :=
  failoverCorrect_of_course outcomes _ _ _ _ _
    (failoverAction_course config c pathSuffix serverUrls sticky outcomes)

/-! ## Sticky queries -/

/-- A broadcast does not move the index. -/
theorem broadcastLoop_index (config : Config) (pathSuffix : String) (serverUrls : List String)
    (outcomes : Nat → Outcome) (order : List Nat) (c : Client)
    (responseError : Option ResponseError) (lastSuccess : Option Response) (count : Nat) :
    (broadcastLoop config pathSuffix serverUrls outcomes order c responseError lastSuccess
      count).client.lastGoodQueryServerUrlIndex = c.lastGoodQueryServerUrlIndex := by
  induction order generalizing c responseError lastSuccess count with
  | nil =>
    unfold broadcastLoop
    split
    · split <;> rfl
    · rfl
  | cons i order ih =>
    rw [broadcastLoop]
    cases houtcome : outcomes i with
    | returned r =>
      simp only
      split
      · rw [ih, clearTimeout_index]
      · rw [ih, clearTimeout_index]
    | responseError r =>
      simp only
      split
      · rw [ih]
      · rw [ih]
    | raised e =>
      simp only
      obtain ⟨hlog, -⟩ | ⟨c', hlog, -, hc'⟩ :=
        withHttpErrorLogging_cases c (serverUrls.getD i "") e
      · rw [hlog]
      · rw [hlog]
        simp only
        rw [ih, hc']

/-- The requests so far: the state of the client and the server that answered the last query. -/
structure History where
  client : Client
  lastServer : Nat

def History.step (config : Config) (h : History) (request : Request) : History :=
  let a := action config h.client request
  match request.mode, a.result with
  | .query, .ok _ => ⟨a.client, a.contacted.getLast?.getD h.lastServer⟩
  | _, _ => ⟨a.client, h.lastServer⟩

/-- Whatever comes of it, a query contacts first the server that answered the last one. -/
def QueriesLastServer (config : Config) (h : History) : Prop :=
  ∀ request : Request, request.mode = .query →
    ∀ i ∈ (action config h.client request).contacted.head?, i = h.lastServer

/-- The servers before this one give no response without an error code, and no exception that is
raised again, and this one gives a response without an error code. -/
def Answers (outcomes : Nat → Outcome) (i : Nat) : Prop :=
  (∀ j < i, (outcomes j).passed) ∧ (outcomes i).good ≠ none

/-- A command that is not broadcast is answered by its first server, or by one whose index is that
of the server that answered the last query. -/
def KeepsServer (config : Config) (h : History) (request : Request) : Prop :=
  request.mode = .command → config.commandBroadcast = false → config.serverUrls ≠ [] →
    ∀ i < config.serverUrls.length + h.client.submitOnlyServerUrls.length,
      0 < i → Answers request.outcomes i → i % config.serverUrls.length = h.lastServer

theorem Course.head {outcomes : Nat → Outcome} {first : Option Nat} {lastIndex : Nat}
    {order : List Nat} {a : Attempt} (h : Course outcomes first lastIndex order a) :
    a.contacted.head? = order.head? := by
  cases h with
  | answered before i after r hbefore hi hcontacted hresult hindex =>
    rw [hcontacted]
    cases before <;> rfl
  | reraised before i after e hbefore hi hpassed hcontacted hresult hindex =>
    rw [hcontacted]
    cases before <;> rfl
  | failed _ e horder hcontacted hresult hindex => rw [hcontacted]

theorem head_serverTryOrder (n lastGoodIndex : Nat) :
    (serverTryOrder n lastGoodIndex).head? = if n = 0 then none else some (lastGoodIndex % n) := by
  cases n with
  | zero => rfl
  | succ n => simp [serverTryOrder, List.range_succ_eq_map]

theorem length_eq_zero_iff (config : Config) :
    config.serverUrls.length = 0 ↔ config.serverUrls = [] := List.length_eq_zero_iff

/-- Queries go to the server of the last one exactly when the index is that server's. -/
theorem queriesLastServer_iff (config : Config) (hsticky : config.stickyReadFailover = true)
    (h : History) :
    QueriesLastServer config h ↔
      (config.serverUrls ≠ [] →
        h.client.lastGoodQueryServerUrlIndex % config.serverUrls.length = h.lastServer) := by
  have hhead : ∀ request : Request, request.mode = .query →
      (action config h.client request).contacted.head? =
        if config.serverUrls = [] then none
        else some (h.client.lastGoodQueryServerUrlIndex % config.serverUrls.length) := by
    intro request hmode
    have hcourse := failoverAction_course config h.client request.pathSuffix config.serverUrls
      config.stickyReadFailover request.outcomes
    rw [action, hmode, hcourse.head, head_serverTryOrder, hsticky, if_pos rfl]
    simp only [length_eq_zero_iff]
  constructor
  · intro hqueries hne
    have hfirst := hqueries ⟨.query, "", fun _ => .raised .other⟩ rfl
    rw [hhead _ rfl, if_neg hne] at hfirst
    exact hfirst _ rfl
  · intro hindex request hmode i hi
    rw [hhead request hmode] at hi
    split at hi
    · cases hi
    · next hne =>
      cases hi
      exact hindex hne

theorem range_eq_append (n i : Nat) (before after : List Nat)
    (h : List.range n = before ++ i :: after) : i < n ∧ ∀ j, j ∈ before ↔ j < i := by
  have hlength : before.length < n := by
    have := congrArg List.length h
    simp at this
    omega
  have hi : i = before.length := by
    have hget := congrArg (fun l => l[before.length]?) h
    simpa [hlength] using hget.symm
  have hbefore : before = List.range before.length := by
    have htake := congrArg (List.take before.length) h
    rw [List.take_left', List.take_range, Nat.min_eq_left hlength.le] at htake
    · exact htake.symm
    · rfl
  refine ⟨by omega, fun j => ?_⟩
  rw [hbefore, List.mem_range, hi]

theorem not_passed_of_good (o : Outcome) (h : o.good ≠ none) : o.passed = false := by
  cases hpassed : o.passed with
  | false => rfl
  | true => exact absurd (good_of_passed o hpassed) h

/-- At most one server answers. -/
theorem Answers.unique {outcomes : Nat → Outcome} {i j : Nat} (hi : Answers outcomes i)
    (hj : Answers outcomes j) : i = j := by
  have hnot : ∀ {i j}, Answers outcomes i → Answers outcomes j → ¬ i < j := by
    intro i j hi hj hlt
    have hpassed := hj.1 i hlt
    rw [not_passed_of_good _ hi.2] at hpassed
    cases hpassed
  exact Nat.le_antisymm (Nat.not_lt.mp (hnot hj hi)) (Nat.not_lt.mp (hnot hi hj))

/-- Where a command is answered beyond its first server, the index is that of its server; else the
index is kept. -/
theorem command_index (config : Config) (h : History) (request : Request)
    (hmode : request.mode = .command) (hbroadcast : config.commandBroadcast = false) :
    (∃ i < config.serverUrls.length + h.client.submitOnlyServerUrls.length, 0 < i ∧
        Answers request.outcomes i ∧
          (action config h.client request).client.lastGoodQueryServerUrlIndex = i) ∨
      ((∀ i < config.serverUrls.length + h.client.submitOnlyServerUrls.length, 0 < i →
          ¬ Answers request.outcomes i) ∧
        (action config h.client request).client.lastGoodQueryServerUrlIndex =
          h.client.lastGoodQueryServerUrlIndex) := by
  have hcourse := failoverAction_course config h.client request.pathSuffix
    (config.serverUrls ++ h.client.submitOnlyServerUrls) false request.outcomes
  have horder : serverTryOrder (config.serverUrls ++ h.client.submitOnlyServerUrls).length
      (if false = true then h.client.lastGoodQueryServerUrlIndex else 0) =
        List.range (config.serverUrls.length + h.client.submitOnlyServerUrls.length) := by
    rw [List.length_append, serverTryOrder]
    apply List.ext_getElem (by simp)
    intro i hi hi'
    simpa using Nat.mod_eq_of_lt (by simpa using hi)
  rw [horder] at hcourse
  rw [action, hmode]
  simp only [hbroadcast, Bool.false_eq_true, if_false]
  generalize failoverAction config h.client request.pathSuffix
    (config.serverUrls ++ h.client.submitOnlyServerUrls) false request.outcomes = a at hcourse
  generalize config.serverUrls.length + h.client.submitOnlyServerUrls.length = n at hcourse
  generalize hrange : List.range n = order at hcourse
  cases hcourse with
  | answered before i after r hbefore hi hcontacted hresult hindex =>
    obtain ⟨hn, hmem⟩ := range_eq_append n i before after hrange
    have hanswers : Answers request.outcomes i :=
      ⟨fun j hj => hbefore j ((hmem j).mpr hj), by rw [hi]; exact Option.some_ne_none r⟩
    have hfirst : (before ++ i :: after).head? = some 0 := by
      rw [← hrange]
      cases n with
      | zero => omega
      | succ n => simp [List.range_succ_eq_map]
    rw [hfirst] at hindex
    cases i with
    | zero =>
      refine .inr ⟨?_, by simpa using hindex⟩
      intro i _ hpos hi
      exact hpos.ne (hanswers.unique hi)
    | succ i => exact .inl ⟨i + 1, hn, Nat.succ_pos i, hanswers, by simpa using hindex⟩
  | reraised before i after e hbefore hi hpassed hcontacted hresult hindex =>
    obtain ⟨-, hmem⟩ := range_eq_append n i before after hrange
    refine .inr ⟨?_, hindex⟩
    rintro j - - ⟨hbeforej, hgood⟩
    obtain hj | rfl | hj := Nat.lt_trichotomy j i
    · exact hgood (good_of_passed _ (hbefore j ((hmem j).mpr hj)))
    · exact hgood (by rw [hi]; rfl)
    · rw [hbeforej i hj] at hpassed
      cases hpassed
  | failed _ e horder hcontacted hresult hindex =>
    refine .inr ⟨?_, hindex⟩
    rintro j hj - ⟨-, hgood⟩
    exact hgood (good_of_passed _ (horder j (hrange ▸ List.mem_range.mpr hj)))

/-- A query keeps the index at the server that answered last. -/
theorem query_step (config : Config) (hsticky : config.stickyReadFailover = true) (h : History)
    (request : Request) (hmode : request.mode = .query)
    (hindex : config.serverUrls ≠ [] →
      h.client.lastGoodQueryServerUrlIndex % config.serverUrls.length = h.lastServer)
    (hne : config.serverUrls ≠ []) :
    (h.step config request).client.lastGoodQueryServerUrlIndex % config.serverUrls.length =
      (h.step config request).lastServer := by
  have hcourse := failoverAction_course config h.client request.pathSuffix config.serverUrls
    config.stickyReadFailover request.outcomes
  have haction : action config h.client request =
      failoverAction config h.client request.pathSuffix config.serverUrls
        config.stickyReadFailover request.outcomes := by
    rw [action, hmode]
  have hlength : config.serverUrls.length ≠ 0 := fun h0 => hne ((length_eq_zero_iff config).mp h0)
  rw [← haction, head_serverTryOrder, hsticky, if_pos rfl, if_neg hlength, hindex hne] at hcourse
  have hbound : ∀ i ∈ serverTryOrder config.serverUrls.length h.client.lastGoodQueryServerUrlIndex,
      i % config.serverUrls.length = i := by
    intro i hi
    obtain ⟨j, -, rfl⟩ := List.mem_map.mp hi
    exact Nat.mod_mod _ _
  generalize serverTryOrder config.serverUrls.length h.client.lastGoodQueryServerUrlIndex = order
    at hcourse hbound
  rw [History.step]
  generalize action config h.client request = a at hcourse
  cases hcourse with
  | answered before i after r hbefore hi hcontacted hresult hlast =>
    rw [hmode, hresult]
    simp only [hcontacted, List.getLast?_append, List.getLast?_singleton, Option.some_or,
      Option.getD_some, hlast]
    split
    · exact hbound i (by simp)
    · next hfirst =>
      rw [hindex hne]
      exact (Option.some.inj (not_not.mp hfirst)).symm
  | reraised before i after e hbefore hi hpassed hcontacted hresult hlast =>
    rw [hmode, hresult]
    simp only [hlast]
    exact hindex hne
  | failed _ e horder hcontacted hresult hlast =>
    rw [hmode, hresult]
    simp only [hlast]
    exact hindex hne

/-- A step keeps queries at the server of the last one exactly when it is no command that another
server answers. -/
theorem step_queriesLastServer_iff (config : Config) (hsticky : config.stickyReadFailover = true)
    (h : History) (request : Request) (hs : QueriesLastServer config h) :
    QueriesLastServer config (h.step config request) ↔ KeepsServer config h request := by
  rw [queriesLastServer_iff config hsticky] at hs ⊢
  rw [KeepsServer]
  cases hmode : request.mode with
  | query => simpa using query_step config hsticky h request hmode hs
  | command =>
    have hstep : h.step config request = ⟨(action config h.client request).client, h.lastServer⟩ := by
      rw [History.step, hmode]
    rw [hstep]
    simp only [forall_const]
    cases hbroadcast : config.commandBroadcast with
    | true =>
      have hindex : (action config h.client request).client.lastGoodQueryServerUrlIndex =
          h.client.lastGoodQueryServerUrlIndex := by
        rw [action, hmode]
        simp only [hbroadcast, if_true]
        exact broadcastLoop_index config request.pathSuffix _ request.outcomes _ _ _ _ _
      simpa [hindex] using hs
    | false =>
      simp only [forall_const]
      refine imp_congr_right fun hne => ?_
      obtain ⟨i, hi, hpos, hanswers, hindex⟩ | ⟨hnone, hindex⟩ :=
        command_index config h request hmode hbroadcast
      · rw [hindex]
        constructor
        · intro hmod j hj hjpos hjanswers
          rw [hjanswers.unique hanswers, hmod]
        · intro hall
          exact hall i hi hpos hanswers
      · rw [hindex]
        refine iff_of_true (hs hne) fun i hi hpos hanswers => absurd hanswers (hnone i hi hpos)

/-- Every action fails over in order and returns a good response where one is given; and where
reads are sticky, queries go to the server that answered the last one along a run exactly when
no command is answered by another server than its first and that one. -/
theorem failover_iff (config : Config) :
    (∀ (c : Client) (pathSuffix : String) (serverUrls : List String) (sticky : Bool)
      (outcomes : Nat → Outcome),
        FailoverCorrect serverUrls.length (if sticky then c.lastGoodQueryServerUrlIndex else 0)
          outcomes (failoverAction config c pathSuffix serverUrls sticky outcomes)) ∧
      (config.stickyReadFailover = true →
        ∀ (timeouts : String → Bool) (submitOnlyServerUrls : List String)
          (requests : List Request),
            Always (History.step config)
                (fun h request => QueriesLastServer config (h.step config request))
                ⟨⟨0, timeouts, submitOnlyServerUrls⟩, 0⟩ requests ↔
              Always (History.step config) (KeepsServer config)
                ⟨⟨0, timeouts, submitOnlyServerUrls⟩, 0⟩ requests) := by
  refine ⟨failoverAction_correct config, ?_⟩
  intro hsticky timeouts submitOnlyServerUrls requests
  apply always_congr (fun h request hs => step_queriesLastServer_iff config hsticky h request hs)
    (fun _ _ _ hp => hp)
  rw [queriesLastServer_iff config hsticky]
  intro _
  exact Nat.zero_mod _

/-- Two servers, where reads are sticky and commands are not broadcast. -/
def twoServers : Config := ⟨["https://server1:8081", "https://server2:8081"], true, false, 1⟩

/-- A server that is unavailable at first, and one that answers. -/
def failsOver : Nat → Outcome
  | 0 => .responseError ⟨503, none⟩
  | _ => .returned ⟨200, some "[]"⟩

theorem failover_iff_twoServers :
    Always (History.step twoServers)
        (fun h request => QueriesLastServer twoServers (h.step twoServers request))
        ⟨⟨0, fun _ => false, []⟩, 0⟩ [⟨.query, "/pdb/query/v4/nodes", failsOver⟩] ↔
      Always (History.step twoServers) (KeepsServer twoServers)
        ⟨⟨0, fun _ => false, []⟩, 0⟩ [⟨.query, "/pdb/query/v4/nodes", failsOver⟩] :=
  (failover_iff twoServers).2 rfl (fun _ => false) [] _

/-- No query has been answered yet, but after a command that the first server refuses the first
query goes to the second server. -/
theorem queriesLastServer_fails :
    (action twoServers
        (action twoServers ⟨0, fun _ => false, []⟩ ⟨.command, "/pdb/cmd/v1", failsOver⟩).client
        ⟨.query, "/pdb/query/v4/nodes", fun _ => .returned ⟨200, some "[]"⟩⟩).contacted = [1] := by
  decide

end OpenVoxDB.HttpFailover
