import KeyBank.System.World

/-!
# What is behind an answer

A body that a page reads comes from the handler its request is for: behind the JSON text of a key
there is a `Save` of its private half, behind a private key a `Load` that returned it.
-/

namespace KeyBank

open Interleaving

variable {d : Deployment} {r : Request} {l : List (Σ c : Api.Cmd, Api.Reply c)}
  {e : Exit}

theorem Connection.arrives_request (conn : Connection) {wire : Wire} {method : String}
    (hmethod : wire.method = js method) : Arrives wire (conn.request wire) := by
  refine ⟨?_, rfl, rfl, rfl⟩
  rw [Connection.request, hmethod, js, js, Utf16.decode_encode, String.toList_ofList]

/-- A page reads the body of every response that is no error. -/
theorem Client.isOkStatus_of_reads {status : ℕ} {client : Client} (hclient : client ≠ .other)
    (h : client.reads status = true) : isOkStatus status = true := by
  cases client with
  | other => exact absurd rfl hclient
  | creator page call =>
    rw [Client.reads, createKeyReply] at h
    split at h
    · assumption
    · cases h
  | reader page call =>
    rw [Client.reads, fetchKeyReply] at h
    split at h
    · next heq =>
      split at heq
      · cases heq
      · split at heq
        · assumption
        · cases heq
    · cases h

/-- A program that ends with an error does not end well. -/
private theorem not_ok_of_done {e' : Exit} (hstatus : isOkStatus e'.w.status = false)
    (h : Prog.Path (.done e' : Prog Api Exit) l (.done e)) : isOkStatus e.w.status ≠ true := by
  obtain ⟨-, heq⟩ := Prog.path_done_iff.mp h
  cases heq
  rw [hstatus]
  exact Bool.false_ne_true

private theorem not_ok_of_error {w : ResponseWriter} (hw : w.Fresh) {message : String} {status : ℕ}
    (hstatus : isOkStatus status = false)
    (h : Prog.Path (finish (w.error message status)) l (.done e)) : isOkStatus e.w.status ≠ true :=
  not_ok_of_done (by rwa [hw.status_error]) h

/-- **Behind a private key** there is a `Load` of the id that was asked for. -/
theorem loaded_of_fetchKey {id : JSString} {request : FetchRequest}
    (hrequest : fetchKeyRequest id = .ok request) (hr : Arrives request.wire r) (hne : id ≠ [])
    (hpath : Prog.Path (d.app .new r) l (.done e)) (hok : isOkStatus e.w.status = true) :
    ∃ key, ⟨.load (textEncode id), .ok (some key)⟩ ∈ l ∧ e.w.body = [.bytes key] := by
  have hserves : Serves decodeCreateKeyRequest d.handlers d.trustXFF r.capped (d.app .new r) :=
    serves_appHandler ResponseWriter.fresh_new r
  by_cases hid : id ∈ unfetchable
  · obtain ⟨e', happ, hstatus⟩ := @done_of_arrives d.assets decodeCreateKeyRequest d.handlers
      d.trustXFF id _ r hrequest hr hid
    rw [Deployment.app, happ] at hpath
    exact absurd hok (not_ok_of_done hstatus hpath)
  · obtain ⟨next, answer, happ, hnext, hanswer⟩ := @fetchesKey_of_arrives d.assets
      decodeCreateKeyRequest d.handlers d.trustXFF id _ r hrequest hr hne hid
    rw [Deployment.app, happ] at hpath hserves
    obtain ⟨-, ⟨⟩⟩ | ⟨allowed, l', rfl, hallowed⟩ := Prog.path_call_iff.mp hpath
    cases hserves with
    | @allow _ _ w hw hrefused _ =>
      cases allowed with
      | false =>
        rw [hrefused] at hallowed
        exact absurd hok (not_ok_of_error hw rfl hallowed)
      | true =>
        rw [hnext] at hallowed
        obtain ⟨-, ⟨⟩⟩ | ⟨loaded, l', rfl, hloaded⟩ := Prog.path_call_iff.mp hallowed
        obtain ⟨w, hw, hdone⟩ := hanswer loaded
        rw [hdone] at hloaded
        rcases loaded with err | _ | key
        · exact absurd hok (not_ok_of_error hw rfl hloaded)
        · exact absurd hok (not_ok_of_error hw rfl hloaded)
        · obtain ⟨rfl, heq⟩ := Prog.path_done_iff.mp hloaded
          cases heq
          refine ⟨key, by simp, ?_⟩
          rw [Handlers.keyLoaded, hw.writeHeader_write]

/-- **Behind the text of a key** there is a `Save` of its private half. -/
theorem saved_of_createKeyRequest {ttl : ℕ} (hr : Arrives (createKeyRequest ttl).wire r)
    (hpath : Prog.Path (d.app .new r) l (.done e)) (hok : isOkStatus e.w.status = true) :
    ∃ key lifetime id, r.keyPair = some key ∧ ⟨.save key.priv lifetime, .ok id⟩ ∈ l ∧
      e.w.body = [.json [("id", id), ("pub_pem", key.pub)]] := by
  obtain ⟨hmethod, huri, hpathname, -⟩ := hr.createKey
  obtain ⟨w, hw, happ⟩ := @appHandler_postKeys d.assets decodeCreateKeyRequest d.handlers
    d.trustXFF r hmethod huri hpathname
  obtain ⟨r', hkey, hcall⟩ : ∃ r' : Request, r'.keyPair = r.keyPair ∧ d.app .new r =
      .call (.allow .create (remoteIP r d.trustXFF)) fun allowed =>
        panicRecover (fun w r => if allowed then d.handlers.createKey decodeCreateKeyRequest w r
          else finish (w.error "too many requests" 429)) w r' :=
    ⟨{ r.capped with matched := [] }, rfl, happ⟩
  rw [hcall] at hpath
  obtain ⟨-, ⟨⟩⟩ | ⟨allowed, l', rfl, hallowed⟩ := Prog.path_call_iff.mp hpath
  cases allowed with
  | false => exact absurd hok (not_ok_of_error hw rfl hallowed)
  | true =>
    rw [panicRecover] at hallowed
    simp only [↓reduceIte] at hallowed
    rcases hs : Handlers.requestedSeconds (decodeCreateKeyRequest r'.body) with _ | seconds
    · obtain ⟨w', heq, hstatus⟩ := @Handlers.createKey_of_none d.handlers _ _ hw _ hs
      rw [heq] at hallowed
      have hbad : isOkStatus w'.status = false := by
        rcases hstatus with hstatus | hstatus <;> rw [hstatus] <;> rfl
      exact absurd hok (@not_ok_of_done _ _ ⟨w', false⟩ hbad hallowed)
    · rw [Handlers.createKey_of_seconds hs, Handlers.createKeyFor] at hallowed
      split at hallowed
      · have hbad : isOkStatus (writeJSONError w 400 "invalid_ttl").status = false := by
          rw [Handlers.status_writeJSONError hw]
          rfl
        exact absurd hok (@not_ok_of_done _ _ ⟨_, false⟩ hbad hallowed)
      · next lifetime _ =>
        rw [Handlers.generateAndSave] at hallowed
        split at hallowed
        · exact absurd hok (not_ok_of_error hw rfl hallowed)
        · next key hpair =>
          obtain ⟨-, ⟨⟩⟩ | ⟨saved, l', rfl, hsaved⟩ := Prog.path_call_iff.mp hallowed
          rcases saved with err | id
          · exact absurd hok (not_ok_of_error hw rfl hsaved)
          · obtain ⟨rfl, heq⟩ := Prog.path_done_iff.mp hsaved
            cases heq
            refine ⟨key, lifetime, id, hkey ▸ hpair, by simp, ?_⟩
            rw [Handlers.keySaved, (hw.setHeader _ _).writeHeader_write]

end KeyBank
