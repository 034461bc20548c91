import AccessPolicy.Proofs.Deployment.Check

/-!
# The marker

Where the marker is written in full, it reads as the JSON text of this run
(`Deployment.writeMarker_cases`), and nothing else is touched in any case
(`Deployment.within_writeMarker`). Where writing it fails, either its file was not opened, or
it was emptied and stays empty, or the values in it have no JSON form.
-/

namespace AccessPolicy.Deployment

open AccessPolicy.Action (Within IsPreorder)
open Session (Passes)

variable {plan : FaultPlan} {host : Host} {settings : Settings} {dir : Path}
  {targets : List Target} {b : Blocks} {s s' : Session}

/-- The marker as a document. -/
def markerDocument (host : Host) (targets : List Target) (b : Blocks) (server : Entries) :
    Document :=
  .mapping (markerEntries host targets b server)

/-- Opens the marker, which empties it, and writes the bytes to it. -/
def overwrite (plan : FaultPlan) (p : Path) (bytes : List UInt8) : Action Unit :=
  reportAs ("Failed to write " ++ p.text) do
    Action.call plan .openMarker
    Action.change p fun t => t.write p []
    Action.call plan .write
    Action.change p fun t => t.write p bytes

/-- Notes that the marker was written, or fails at the value that has no text. -/
def acknowledge (p : Path) : Option Fault → Action Unit
  | none => Action.note .info ("Wrote policy-applied marker to " ++ p.text)
  | some f => Action.fail (.fault f)

theorem overwrite_ok {p : Path} {bytes : List UInt8}
    (h : overwrite plan p bytes s = (.ok (), s')) :
    s'.calls = s.calls ++ [.openMarker, .write] ∧ s'.tree.read p = .ok bytes := by
  obtain ⟨_, s₁, hopen, h⟩ := Action.bind_ok (reportAs_ok h)
  obtain ⟨rfl, -⟩ := Action.call_cases hopen
  obtain ⟨_, s₂, hempty, h⟩ := Action.bind_ok h
  rcases Action.change_cases hempty with ⟨t, -, -, rfl⟩ | ⟨-, e, he, -⟩
  swap
  · exact absurd he (by simp)
  obtain ⟨_, s₃, hwrite, h⟩ := Action.bind_ok h
  obtain ⟨rfl, -⟩ := Action.call_cases hwrite
  rcases Action.change_cases h with ⟨t', -, ht', rfl⟩ | ⟨-, e, he, -⟩
  · exact ⟨by simp, FileTree.read_of_write ht'⟩
  · exact absurd he (by simp)

/-- A marker that could not be written was not opened, or it was emptied. -/
theorem overwrite_error {p : Path} {bytes : List UInt8} {e : Failure}
    (h : overwrite plan p bytes s = (.error e, s')) :
    s'.calls = s.calls ++ [.openMarker] ∨
      s'.calls = s.calls ++ [.openMarker, .write] ∧ s'.tree.read p = .ok [] := by
  obtain ⟨e', hbody⟩ := reportAs_error h
  rcases Action.bind_cases hbody with ⟨_, s₁, hopen, h⟩ | ⟨e, hopen, -⟩
  swap
  · rw [(Action.call_cases hopen).1]
    exact .inl rfl
  obtain ⟨rfl, -⟩ := Action.call_cases hopen
  rcases Action.bind_cases h with ⟨_, s₂, hempty, h⟩ | ⟨e, hempty, -⟩
  swap
  · rcases Action.change_cases hempty with ⟨t, hok, -, -⟩ | ⟨rfl, -⟩
    · exact absurd hok (by simp)
    · exact .inl rfl
  rcases Action.change_cases hempty with ⟨t, -, ht, rfl⟩ | ⟨-, e, he, -⟩
  swap
  · exact absurd he (by simp)
  have hread := FileTree.read_of_write ht
  rcases Action.bind_cases h with ⟨_, s₃, hwrite, h⟩ | ⟨e, hwrite, -⟩
  swap
  · rw [(Action.call_cases hwrite).1]
    exact .inr ⟨by simp, hread⟩
  obtain ⟨rfl, -⟩ := Action.call_cases hwrite
  rcases Action.change_cases h with ⟨t', hok, -, -⟩ | ⟨rfl, -⟩
  · exact absurd hok (by simp)
  · exact .inr ⟨by simp, hread⟩

/-- Whatever comes of it, nothing else is touched. -/
theorem within_writeMarker (plan : FaultPlan) (host : Host) (settings : Settings) (dir : Path)
    (targets : List Target) (b : Blocks) :
    Within (Passes [.openMarker, .write] (FileTree.WritesAt (dir.child markerName)))
      (writeMarker plan host settings dir targets b) := by
  have hT : IsPreorder (FileTree.WritesAt (dir.child markerName)) :=
    ⟨FileTree.WritesAt.refl _, FileTree.WritesAt.trans⟩
  have hR := Action.isPreorder_passes [.openMarker, .write] hT
  refine hR.within_bind (hR.within_ofFault _) fun server => ?_
  refine hR.within_bind (within_reportAs hR _ ?_) fun _ => ?_
  · refine hR.within_bind (Action.passes_call hT plan (by decide)) fun _ => ?_
    refine hR.within_bind (Action.passes_change hT _ fun _ _ h => .of_write h) fun _ => ?_
    refine hR.within_bind (Action.passes_call hT plan (by decide)) fun _ => ?_
    exact Action.passes_change hT _ fun _ _ h => .of_write h
  · split
    · exact Action.passes_note hT _ _
    · exact hR.within_fail _

theorem encode_ne_nil {text : String} {c : Char} {cs : List Char} (h : text.toList = c :: cs) :
    Utf8.encode text ≠ [] := by
  intro hnil
  rw [Utf8.encode, h, List.flatMap_cons, List.append_eq_nil_iff] at hnil
  exact String.utf8EncodeChar_ne_nil hnil.1

/-- The text of a marker is not empty, not even where it ends in the middle. -/
theorem markerDocument_ne_nil (host : Host) (targets : List Target) (b : Blocks)
    (server : Entries) :
    Utf8.encode (markerDocument host targets b server).json.text ≠ [] := by
  have htext : ∃ rest, (markerDocument host targets b server).json.text.toList =
      '\x7b' :: rest := by
    simp only [markerDocument, markerEntries, Document.json, Document.jsonAt, Json.layer,
      Json.object, Document.jsonEntries, Written.after, List.isEmpty_cons, Bool.false_eq_true,
      if_false, String.toList_append]
    exact ⟨_, rfl⟩
  obtain ⟨rest, hrest⟩ := htext
  exact encode_ne_nil hrest

/-- What came of writing the marker : nothing was done, or its file was at least opened. Only
where all goes well does it read as the text of the document and has the document a text. -/
theorem writeMarker_cases {r : Except Failure Unit}
    (h : writeMarker plan host settings dir targets b s = (r, s')) :
    (s' = s ∧ ∃ f, settings.passthrough = .error f ∧ r = .error (.fault f)) ∨
      ∃ server cs, settings.passthrough = .ok server ∧
        s'.calls = s.calls ++ .openMarker :: cs ∧ (cs = [] ∨ cs = [.write]) ∧
        (r = .ok () ↔ cs = [.write] ∧
          s'.tree.read (dir.child markerName) =
            .ok (Utf8.encode (markerDocument host targets b server).json.text) ∧
          (markerDocument host targets b server).json.fault = none) := by
  unfold writeMarker at h
  rcases Action.bind_cases h with ⟨server, s₁, hserver, hrest⟩ | ⟨e, hserver, rfl⟩
  swap
  · obtain ⟨rfl, ⟨_, -, hok⟩ | ⟨f, hpass, hf⟩⟩ := Action.ofFault_cases hserver
    · exact absurd hok (by simp)
    · exact .inl ⟨rfl, f, hpass, congrArg _ (Except.error.inj hf)⟩
  obtain ⟨rfl, ⟨server', hpass, hok⟩ | ⟨f, -, hf⟩⟩ := Action.ofFault_cases hserver
  swap
  · exact absurd hf (by simp)
  obtain rfl := Except.ok.inj hok
  right
  change (overwrite plan _ (Utf8.encode (markerDocument host targets b server).json.text) >>=
    fun _ => acknowledge _ (markerDocument host targets b server).json.fault) _ = _ at hrest
  rcases Action.bind_cases hrest with ⟨_, s₂, hwrite, hnote⟩ | ⟨e, hwrite, rfl⟩
  · obtain ⟨hcalls, hread⟩ := overwrite_ok hwrite
    cases hfault : (markerDocument host targets b server).json.fault with
    | none =>
      rw [hfault, acknowledge, Action.note] at hnote
      obtain ⟨rfl, rfl⟩ := Action.modify_cases hnote
      exact ⟨server, [.write], hpass, hcalls, by simp, fun _ => ⟨rfl, hread, hfault⟩,
        fun _ => rfl⟩
    | some f =>
      rw [hfault, acknowledge] at hnote
      obtain ⟨rfl, rfl⟩ := Action.fail_cases hnote
      refine ⟨server, [.write], hpass, hcalls, by simp, fun hr => absurd hr (by simp), ?_⟩
      rintro ⟨-, -, hnone⟩
      rw [hfault] at hnone
      exact absurd hnone (by simp)
  · rcases overwrite_error hwrite with hcalls | ⟨hcalls, hread⟩
    · exact ⟨server, [], hpass, hcalls, by simp, fun hr => absurd hr (by simp),
        fun hall => absurd hall.1 (by simp)⟩
    · refine ⟨server, [.write], hpass, hcalls, by simp, fun hr => absurd hr (by simp), ?_⟩
      rintro ⟨-, hfull, -⟩
      rw [hread] at hfull
      exact absurd (Except.ok.inj hfull).symm (markerDocument_ne_nil host targets b server)

/-- Calls that end with those for the marker end with one of these. -/
theorem last_markerCall {calls cs : List Call} {c : Call} (hcs : cs = [] ∨ cs = [.write])
    (hlast : (calls ++ .openMarker :: cs).getLast? = some c) : c = .openMarker ∨ c = .write := by
  rcases hcs with rfl | rfl
  · exact .inl (by simpa using hlast.symm)
  · exact .inr (by simpa using hlast.symm)

end AccessPolicy.Deployment
