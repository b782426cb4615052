import HttpProxy.Json.Tree
import HttpProxy.Message.Replies

/-!
# `SrsGoApiApi`: the api handler

`src/app/srs_app_http_api.cpp`, lines 58-69 and 117-156: a request body is read as JSON, its
property `msg` is traced, and a fixed object is sent back.

* `srsApiResponse` — the reply, as jsonp if the request asks for it.
* `SrsGoApiApi.serveHttp` — the handler, for the bytes that `body_read_all` has appended, whatever
  it returned.
* `Answers` — the handler returns, and one response has gone out.
* `answers_iff` — it does so exactly when the body is an object whose `msg` is a string or missing.
-/

namespace HttpProxy

open SrsHttpResponseWriter

/-- `srs_api_response`. -/
def srsApiResponse (w : SrsHttpResponseWriter) (r : SrsHttpMessage) (json : Bytes) :
    Option SrsError × List Attempt × SrsHttpResponseWriter :=
  if !r.jsonp then srsApiResponseJson w json
  else srsApiResponseJsonp w (r.queryGet (str "callback")) json

namespace SrsGoApiApi

variable {δ : Type} (jsonParse : Bytes → JsonValue δ) (fixed : δ → Bytes)

/-- The object that is sent back. -/
def apiObject : SrsJsonAny δ :=
  let urls := SrsJsonObject.set [] (str "v1") (some (.str (str "the api version 1.0")))
  let obj := SrsJsonObject.set [] (str "code") (some (.integer 0))
  .object (obj.set (str "urls") (some (.object urls)))

/-- `serve_http`. -/
def serveHttp (w : SrsHttpResponseWriter) (r : SrsHttpMessage) (reqBody : Bytes) :
    Outcome Empty (Option SrsError × List Attempt × SrsHttpResponseWriter) :=
  (loads jsonParse reqBody).bind fun any =>
    match any with
    | none => .done (none, [], w)
    | some any =>
        any.objectOrNull.bind fun objReq =>
          (Outcome.deref objReq).bind fun obj =>
            let traced : Outcome Empty Unit :=
              match obj.getProperty (str "msg") with
              | none => .done ()
              | some msg => msg.toStr.bind fun _ => .done ()
            traced.bind fun _ => .done (srsApiResponse w r (apiObject.dumps fixed))

/-- The text of the object that is sent back. -/
def apiText : Bytes := str "\x7b\"code\":0,\"urls\":\x7b\"v1\":\"the api version 1.0\"\x7d\x7d"

/-- The body of the response. -/
def responseBody (r : SrsHttpMessage) : Bytes :=
  if r.jsonp then r.queryGet (str "callback") ++ str "(" ++ apiText ++ str ")" else apiText

/-- The handler returns after it has written, and over a transport without failing writes one
response has gone out, with the object as its body. -/
def Answers (io : Sink) (r : SrsHttpMessage) (reqBody : Bytes) : Prop :=
  ∃ res, serveHttp jsonParse fixed (init io) r reqBody = .done res ∧ res.2.1 ≠ [] ∧
    (io.Reliable → Replied io 200 (responseBody r) res)

/-- The body is an object that can be converted, and the last of its members `msg` is a string, if there is
one. -/
def HasTextMsg (reqBody : Bytes) : Prop :=
  reqBody ≠ [] ∧ ∃ entries, jsonParse reqBody = .object entries ∧ Converts (.object entries) ∧
    ∀ node, (intLoop entries).reverse.lookup (str "msg") = some node → ∃ text, node = .string text

/-- The property `msg` is a string, if there is one. -/
def TextMsg (obj : SrsJsonObject δ) : Prop :=
  ∀ v, obj.getProperty (str "msg") = some v → v.isString = true

variable {jsonParse fixed}

theorem apiObject_eq : (apiObject : SrsJsonAny δ) =
    .object [(str "code", .integer 0), (str "urls", .object [(str "v1", .str (str "the api version 1.0"))])] := rfl

theorem dumps_apiObject (fixed : δ → Bytes) : (apiObject : SrsJsonAny δ).dumps fixed = apiText := by
  have hone (t : Bytes) : joinCont (intLoop [t]) = t := by
    rw [intLoop_eq_self (by simp)]
    rfl
  have htwo (t u : Bytes) : joinCont (intLoop [t, u]) = t ++ chr ',' :: u := by
    rw [intLoop_eq_self (by simp)]
    rfl
  rw [apiObject_eq, SrsJsonAny.dumps, SrsJsonAny.dumpsProperties, SrsJsonAny.dumpsProperties,
    SrsJsonAny.dumpsProperties, htwo, SrsJsonAny.dumps, SrsJsonAny.dumps, SrsJsonAny.dumpsProperties,
    SrsJsonAny.dumpsProperties, hone, SrsJsonAny.dumps]
  decide

/-! ## What is sent -/

theorem writeEach_log_ne_nil (d : Bytes) (ds : List Bytes) (w : SrsHttpResponseWriter) :
    (SrsHttpResponseWriter.writeEach (d :: ds) w).2.1 ≠ [] := by
  rw [SrsHttpResponseWriter.writeEach]
  cases w.writeContent (.data d) with
  | mk err w₁ => cases err <;> simp

theorem srsApiResponse_log_ne_nil (w : SrsHttpResponseWriter) (r : SrsHttpMessage) (json : Bytes) :
    (srsApiResponse w r json).2.1 ≠ [] := by
  rw [srsApiResponse]
  split
  · exact writeEach_log_ne_nil json [] _
  · rw [srsApiResponseJsonp]
    split
    · exact writeEach_log_ne_nil (str "(") [json, str ")"] _
    · exact writeEach_log_ne_nil _ [str "(", json, str ")"] _

/-- Over a transport without failing writes the reply is one response. -/
theorem srsApiResponse_replied {io : Sink} (hio : io.Reliable) (r : SrsHttpMessage)
    (hcallback : (r.queryGet (str "callback")).length < 2 ^ 30) :
    Replied io 200 (responseBody r) (srsApiResponse (init io) r apiText) := by
  have htext : apiText.length < 100 := by decide
  have hparens : (str "(").length = 1 ∧ (str ")").length = 1 := by decide
  rw [srsApiResponse, responseBody]
  cases r.jsonp with
  | false => exact replied_json hio apiText (by omega)
  | true =>
    refine replied_jsonp hio (r.queryGet (str "callback")) apiText ?_
    simp only [List.length_append, hparens.1, hparens.2]
    omega

/-! ## When the handler answers -/

/-- With a message that is a string, or without one, the fixed object is sent. -/
theorem serveHttp_answers {w : SrsHttpResponseWriter} {r : SrsHttpMessage} {reqBody : Bytes}
    {obj : SrsJsonObject δ} (hloads : loads (ε := Empty) jsonParse reqBody = .done (some (.object obj)))
    (hmsg : TextMsg obj) :
    serveHttp jsonParse fixed w r reqBody = .done (srsApiResponse w r apiText) := by
  rw [serveHttp, hloads, ← dumps_apiObject fixed]
  simp only [Outcome.bind_done, SrsJsonAny.objectOrNull_object, Outcome.deref_some]
  cases hv : obj.getProperty (str "msg") with
  | none => rfl
  | some v =>
    obtain ⟨text, rfl⟩ : ∃ text, v = .str text := by
      have hstring := hmsg v hv
      cases v with
      | str text => exact ⟨text, rfl⟩
      | _ => cases hstring
    rfl

/-- A handler that has returned after writing saw an object, whose message was a string if it had
one. -/
theorem object_of_answered {w : SrsHttpResponseWriter} {r : SrsHttpMessage} {reqBody : Bytes}
    {res : Option SrsError × List Attempt × SrsHttpResponseWriter}
    (h : serveHttp jsonParse fixed w r reqBody = .done res) (hlog : res.2.1 ≠ []) :
    ∃ obj, loads (ε := Empty) jsonParse reqBody = .done (some (.object obj)) ∧ TextMsg obj := by
  rw [serveHttp, Outcome.bind_eq_done] at h
  obtain ⟨any, hloads, h⟩ := h
  cases any with
  | none =>
    cases h
    exact absurd rfl hlog
  | some any =>
    obtain ⟨objReq, hreq, h⟩ := Outcome.bind_eq_done.1 h
    cases any with
    | object obj =>
      cases hreq
      refine ⟨obj, hloads, fun v hv => ?_⟩
      simp only [Outcome.deref_some, Outcome.bind_done, hv] at h
      cases v with
      | str text => rfl
      | _ => cases h
    | _ =>
      cases hreq
      cases h

theorem loads_object_iff {reqBody : Bytes} :
    (∃ obj, loads (ε := Empty) jsonParse reqBody = .done (some (.object obj)) ∧ TextMsg obj) ↔
      HasTextMsg jsonParse reqBody := by
  constructor
  · rintro ⟨obj, hloads, hmsg⟩
    rw [loads] at hloads
    split at hloads
    · cases hloads
    · next hne =>
      obtain ⟨entries, hentries⟩ := Returned.object hloads
      rw [hentries] at hloads
      obtain ⟨ms, hms, heq⟩ := returned_object.1 hloads
      cases heq
      refine ⟨hne, entries, hentries, (srsJsonParseTree_returns_iff _).1 ⟨_, hloads⟩, fun node hnode => ?_⟩
      have hrel := rel_getProperty hms (str "msg")
      rw [hnode] at hrel
      generalize hv : SrsJsonObject.getProperty (Assoc.putAll [] ms) (str "msg") = v at hrel
      cases hrel with
      | some hret => exact hret.isString_iff.1 (hmsg _ hv)
  · rintro ⟨hne, entries, hentries, hconv, hmsg⟩
    obtain ⟨v, hv⟩ := (srsJsonParseTree_returns_iff (ε := Empty) _).2 hconv
    obtain ⟨ms, hms, rfl⟩ := returned_object.1 hv
    refine ⟨_, by rw [loads, if_neg hne, hentries, hv], fun v hget => ?_⟩
    have hrel := rel_getProperty hms (str "msg")
    rw [hget] at hrel
    generalize hnode : (intLoop entries).reverse.lookup (str "msg") = node at hrel
    cases hrel with
    | some hret => exact hret.isString_iff.2 (hmsg _ hnode)

/-- The handler answers exactly the bodies that are objects with a string as `msg`, or without `msg`. -/
theorem answers_iff (io : Sink) (r : SrsHttpMessage) (reqBody : Bytes)
    (hcallback : (r.queryGet (str "callback")).length < 2 ^ 30) :
    Answers jsonParse fixed io r reqBody ↔ HasTextMsg jsonParse reqBody := by
  rw [← loads_object_iff]
  constructor
  · rintro ⟨res, hres, hlog, -⟩
    exact object_of_answered hres hlog
  · rintro ⟨obj, hloads, hmsg⟩
    exact ⟨_, serveHttp_answers hloads hmsg, srsApiResponse_log_ne_nil _ _ _,
      fun hio => srsApiResponse_replied hio r hcallback⟩

/-- What the parser makes of three bodies. -/
def sampleParse (text : Bytes) : JsonValue Empty :=
  if text = str "\x7b\"msg\":\"hi\"\x7d" then .object [(str "msg", .string (str "hi"))]
  else if text = str "\x7b\"msg\":1\x7d" then .object [(str "msg", .integer 1)]
  else if text = str "[1]" then .array [.integer 1]
  else .none

theorem answers_iff_hi :
    Answers sampleParse Empty.elim ⟨[], []⟩ .new (str "\x7b\"msg\":\"hi\"\x7d") := by
  have hcallback : (SrsHttpMessage.new.queryGet (str "callback")).length < 2 ^ 30 := by decide
  have hloop : intLoop [(str "msg", (JsonValue.string (str "hi") : JsonValue Empty))] =
      [(str "msg", .string (str "hi"))] := intLoop_eq_self (by simp)
  refine (answers_iff ⟨[], []⟩ .new _ hcallback).2 ⟨by decide, [(str "msg", .string (str "hi"))], ?_, ?_, ?_⟩
  · rw [sampleParse, if_pos rfl]
  · refine .object fun e he => ?_
    rw [hloop, List.mem_singleton] at he
    subst he
    exact .string (by decide)
  · intro node hnode
    rw [hloop] at hnode
    cases hnode
    exact ⟨_, rfl⟩

/-- No response to an empty body, a NULL pointer for an array, and a failed assertion for a number in
the place of the message. -/
theorem emptyBody_not_answered :
    ¬ Answers sampleParse Empty.elim ⟨[], []⟩ .new [] ∧
      serveHttp sampleParse Empty.elim (init ⟨[], []⟩) .new (str "[1]") = .fault .nullDereference ∧
      serveHttp sampleParse Empty.elim (init ⟨[], []⟩) .new (str "\x7b\"msg\":1\x7d") =
        .fault .assertFailed := by
  refine ⟨?_, ?_, ?_⟩
  · rintro ⟨res, hres, hlog, -⟩
    cases hres
    exact hlog rfl
  · have hparse : sampleParse (str "[1]") = .array [.integer 1] := by
      rw [sampleParse, if_neg (by decide), if_neg (by decide), if_pos rfl]
    have hloads : loads (ε := Empty) sampleParse (str "[1]") = .done (some (.array [.integer 1])) := by
      rw [loads, if_neg (by decide), hparse]
      exact returned_array.2 ⟨[.integer 1], by rw [intLoop_eq_self (by simp)]; exact .cons rfl .nil, rfl⟩
    rw [serveHttp, hloads]
    rfl
  · have hparse : sampleParse (str "\x7b\"msg\":1\x7d") = .object [(str "msg", .integer 1)] := by
      rw [sampleParse, if_neg (by decide), if_pos rfl]
    have hloads : loads (ε := Empty) sampleParse (str "\x7b\"msg\":1\x7d") =
        .done (some (.object [(str "msg", .integer 1)])) := by
      rw [loads, if_neg (by decide), hparse]
      refine returned_object.2 ⟨[(str "msg", .integer 1)], ?_, rfl⟩
      rw [intLoop_eq_self (by simp)]
      exact .cons ⟨rfl, rfl⟩ .nil
    rw [serveHttp, hloads]
    rfl

end SrsGoApiApi

end HttpProxy
