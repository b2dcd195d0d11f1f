import ProceduralScene.Build.Parameter
import ProceduralScene.Proofs.PlainExpression
import ProceduralScene.Scene.Placement

/-!
The parameters of templates are plain, and placements evaluate without touching anything but the evaluator.
-/

set_option autoImplicit false

namespace ProceduralScene

theorem plain_definingExpression {spec : Value} (plain : spec.isPlain = true) :
    (definingExpression spec).isPlain = true := by
  unfold definingExpression
  split
  · exact Value.plain_entry_getD plain rfl
  · rfl
  · rfl

theorem kept_resolveParameters (nodeText : NodeText) {specs expressions overrides : Bindings} {parent : Context}
    (plainSpecs : specs.Plain) (plainExpressions : expressions.Plain) (plainOverrides : overrides.Plain)
    (plain : parent.Plain) (ev : Evaluator) (plainEv : ev.Plain) :
    Within Evaluator.Kept (resolveParameters nodeText specs parent expressions overrides) ev fun ctx _ => ctx.Plain := by
  have steady := Evaluator.steady_kept
  let good : Context → Evaluator → Prop := fun scope ev => scope.Plain ∧ ev.Plain
  have evaluated : ∀ (name : String) (expression : Value), expression.isPlain = true → ∀ (scope : Context) (ev : Evaluator),
      good scope ev → Within Evaluator.Kept
        (do return scope.set name (← Evaluator.evaluate nodeText expression scope none)) ev good := by
    rintro name expression plainExpression scope ev ⟨plainScope, plainEv⟩
    refine within_bind steady (Evaluator.plain_evaluate nodeText plainExpression plainScope none ev plainEv) ?_
    intro value after kept plainValue
    exact within_pure steady ⟨Context.plain_set plainScope name plainValue, Evaluator.plain_kept kept plainEv⟩
  have start : good (parent.child []) ev := ⟨Context.plain_child plain Bindings.plain_nil, plainEv⟩
  unfold resolveParameters
  refine within_bind steady (within_foldlM steady good specs ?_ (parent.child []) ev start) ?_
  · intro entry member scope ev holds
    have set : ∀ value : Value, value.isPlain = true → Within Evaluator.Kept
        (pure (scope.set entry.1 value) : Evaluation Context) ev good := fun value plainValue =>
      within_pure steady ⟨Context.plain_set holds.1 entry.1 plainValue, holds.2⟩
    have plainEntry := plainSpecs entry member
    dsimp only
    split
    · rename_i value found
      exact set value (Bindings.plain_get plainOverrides found)
    · refine within_ite (fun _ => set _ ?_) fun _ => within_ite (fun _ => set (.int 0) rfl) fun _ => ?_
      · unfold literalDefault
        split
        · rfl
        · exact Context.plain_parameterDefault plainEntry
      · refine evaluated entry.1 _ ?_ scope ev holds
        split
        · cases found : expressions.get? entry.1 with
          | none => rfl
          | some value => exact Bindings.plain_get plainExpressions found
        · exact plain_definingExpression plainEntry
  · intro declared after _ holds
    refine within_weaken (within_foldlM steady good expressions ?_ declared after holds) fun ctx _ _ both => both.1
    intro entry member scope ev holds
    split
    · exact within_pure steady holds
    · exact evaluated entry.1 entry.2 (plainExpressions entry member) scope ev holds

namespace Placement

open Evaluator

theorem reads_lift {α : Type} (result : Except Failure α) : Reads (Evaluation.lift result) := by
  unfold Evaluation.lift
  exact reads_except result

theorem kept_lift {α : Type} (result : Except Failure α) (ev : Evaluator) :
    Within Kept (Evaluation.lift result) ev fun _ _ => True :=
  within_mono (reads_lift result ev) (fun _ same => same ▸ steady_kept.refl _) fun _ _ _ _ => trivial

section

variable {request : Request} (plain : request.ctx.Plain) {ev : Evaluator} (plainEv : ev.Plain)

include plain plainEv

theorem kept_request (expression : Value) : Within Kept (request.evaluate expression) ev fun _ _ => True :=
  kept_evaluate _ expression plain none ev plainEv

theorem kept_option (names : List String) (missing : Value) :
    Within Kept (request.option names missing) ev fun _ _ => True := by
  unfold Request.option
  split
  · exact kept_request plain plainEv _
  · exact within_pure steady_kept trivial

theorem kept_number (names : List String) (missing : Value) :
    Within Kept (request.number names missing) ev fun _ _ => True :=
  within_seq steady_kept (kept_option plain plainEv names missing) fun _ after _ => kept_lift _ after

theorem kept_linear : Within Kept (linear request) ev fun _ _ => True :=
  within_seq steady_kept (kept_number plain plainEv _ _) fun _ _ _ =>
    within_reads steady_kept (reads_lift _) fun _ => within_pure steady_kept trivial

theorem kept_grid : Within Kept (grid request) ev fun _ _ => True := by
  refine within_seq steady_kept (kept_number plain plainEv _ _) fun _ first kept => ?_
  have plainFirst := plain_kept kept plainEv
  refine within_seq steady_kept (kept_number plain plainFirst _ _) fun _ second kept => ?_
  refine within_seq steady_kept (kept_option plain (plain_kept kept plainFirst) _ _) fun chosen _ _ => ?_
  have rest : ∀ (columns : Int) (ev : Evaluator) (places : List Vec3), Within Kept (do
      if columns.natAbs ≥ Number.twoTo 63 then throw .tooLarge
      return places : Evaluation (List Vec3)) ev fun _ _ => True := by
    intro columns ev places
    refine within_ite (fun _ => within_throw_bind steady_kept) fun _ => within_pure steady_kept trivial
  refine within_ite (fun _ => ?_) fun _ => ?_
  · exact within_reads steady_kept (reads_lift _) fun columns => rest columns _ _
  · exact within_pure_bind (rest _ _ _)

theorem kept_radial : Within Kept (radial request) ev fun _ _ => True := by
  refine within_seq steady_kept (kept_number plain plainEv _ _) fun _ first kept => ?_
  have plainFirst := plain_kept kept plainEv
  refine within_seq steady_kept (kept_number plain plainFirst _ _) fun _ second kept => ?_
  refine within_seq steady_kept (kept_number plain (plain_kept kept plainFirst) _ _) fun _ _ _ => ?_
  exact within_pure steady_kept trivial

omit plain plainEv in
theorem kept_lineOf (source : Value) : Within Kept (lineOf request source) ev fun _ _ => True := by
  unfold lineOf
  split
  · exact within_pure steady_kept trivial
  · split
    · exact within_reads steady_kept (reads_lift _) fun line => within_pure steady_kept trivial
    · exact within_pure steady_kept trivial

theorem kept_alongCurve : Within Kept (alongCurve request) ev fun _ _ => True := by
  unfold alongCurve
  split
  · refine within_seq steady_kept (kept_request plain plainEv _) fun source after _ => ?_
    exact within_seq steady_kept (kept_lineOf source) fun line _ _ => within_pure steady_kept trivial
  · refine within_pure_bind (within_seq steady_kept (kept_lineOf _) fun line _ _ => ?_)
    exact within_pure steady_kept trivial

theorem kept_extents : Within Kept (extents request) ev fun _ _ => True := by
  unfold extents
  refine within_weaken (within_mapM steady_kept Evaluator.Plain (fun _ => True) (fun _ _ => plain_kept) _
    (fun size _ before plainEv => ?_) ev plainEv) fun _ _ _ _ => trivial
  exact within_seq steady_kept (kept_request plain plainEv size) fun value after _ => kept_lift _ after

theorem kept_random : Within Kept (random request) ev fun _ _ => True := by
  refine within_seq steady_kept (kept_option plain plainEv _ _) fun seed first kept => ?_
  refine within_seq steady_kept (kept_extents plain (plain_kept kept plainEv)) fun sizes second _ => ?_
  refine within_reads steady_kept (reads_lift _) fun seed => ?_
  refine within_ite (fun _ => within_throw_bind steady_kept) fun _ => ?_
  split
  · exact within_pure_bind (within_pure steady_kept trivial)
  · exact within_pure_bind (within_pure steady_kept trivial)
  · exact within_throw_bind steady_kept

theorem kept_positions : Within Kept (positions request) ev fun _ _ => True := by
  unfold positions
  split
  · exact kept_linear plain plainEv
  · exact kept_grid plain plainEv
  · exact kept_radial plain plainEv
  · exact kept_alongCurve plain plainEv
  · exact kept_random plain plainEv
  · exact within_throw steady_kept
  · exact within_throw steady_kept
  · exact within_pure steady_kept trivial

end

end Placement

end ProceduralScene
