import LessonPlot.Proofs.Scene.Drawing

namespace LessonPlot

open Assembler

namespace Scene

/-- Two scenes agree on everything that no element draws. -/
structure SameFrame (a b : Scene) : Prop where
  parameter : a.parameter = b.parameter
  xDomain : a.xDomain = b.xDomain
  yDomain : a.yDomain = b.yDomain
  abscissae : a.curves.abscissae = b.curves.abscissae

/-- A scene with what is drawn in another one after its own. -/
def followedBy (a b : Scene) : Scene :=
  { a with
    curves := { a.curves with series := a.curves.series ++ b.curves.series }
    parametric := a.parametric ++ b.parametric
    annotations := a.annotations ++ b.annotations }

/-- The identifiers of all that is drawn in a scene. -/
def ids (scene : Scene) : List String :=
  scene.curves.series.map Series.id ++ scene.parametric.map ParametricCurve.id ++
    scene.annotations.map PlacedMark.id

end Scene

def Configuration.withElements (configuration : Configuration) (elements : List Element) :
    Configuration :=
  { configuration with elements }

/-- What an element draws carries its identifier, and is at most one thing. -/
theorem Element.ids_shown (xs : List Float) (t : Float) (element : Element) :
    let ids := ([element].filterMap (series? xs t)).map Series.id ++
      ([element].filterMap (curve? t)).map ParametricCurve.id ++
      ([element].filterMap (placedMark? t)).map PlacedMark.id
    ids = [] ∨ ids = [element.id] := by
  have placed : ([element].filterMap (placedMark? t)).map PlacedMark.id = [] ∨
      ([element].filterMap (placedMark? t)).map PlacedMark.id = [element.id] := by
    cases h : element.namedMark? t <;> simp [placedMark?, h]
  cases hs : element.shape with
  | function expression =>
    right
    simp [series?, curve?, placedMark?, namedMark?, hs, Element.id]
  | area y1 y2 opacity =>
    right
    simp [series?, curve?, placedMark?, namedMark?, hs, Element.id]
  | parametric source =>
    cases h : Curve.compile source <;>
      simp [series?, curve?, placedMark?, namedMark?, hs, h, Element.id]
  | point | line | vector | vLine | hLine | text =>
    simpa [series?, curve?, hs] using placed

variable (configuration : Configuration) (resolution : Nat) (control : Float)

theorem assemble_followedBy (first second : List Element) : ∃ a b,
    assemble (configuration.withElements first) resolution control = .ok a ∧
      assemble (configuration.withElements second) resolution control = .ok b ∧ a.SameFrame b ∧
      assemble (configuration.withElements (first ++ second)) resolution control =
        .ok (a.followedBy b) := by
  obtain ⟨canvas, shows, assembled⟩ :=
    Canvas.assemble_shows (configuration.withElements first) resolution control
  obtain ⟨canvas', shows', assembled'⟩ :=
    Canvas.assemble_shows (configuration.withElements second) resolution control
  obtain ⟨both, showsBoth, assembledBoth⟩ :=
    Canvas.assemble_shows (configuration.withElements (first ++ second)) resolution control
  refine ⟨_, _, assembled, assembled', ⟨rfl, rfl, rfl, rfl⟩, ?_⟩
  have series : both.series = canvas.series ++ canvas'.series := by
    rw [showsBoth.series, shows.series, shows'.series]
    exact List.filterMap_append
  have parametric : both.parametric = canvas.parametric ++ canvas'.parametric := by
    rw [showsBoth.parametric, shows.parametric, shows'.parametric]
    exact List.filterMap_append
  have annotations : both.annotations = canvas.annotations ++ canvas'.annotations := by
    rw [showsBoth.annotations, shows.annotations, shows'.annotations]
    exact List.filterMap_append
  rw [assembledBoth]
  simp only [Canvas.scene, series, parametric, annotations]
  rfl

theorem assemble_single (element : Element) : ∃ own,
    assemble (configuration.withElements [element]) resolution control = .ok own ∧
      (own.ids = [] ∨ own.ids = [element.id]) := by
  obtain ⟨canvas, shows, assembled⟩ :=
    Canvas.assemble_shows (configuration.withElements [element]) resolution control
  refine ⟨_, assembled, ?_⟩
  simp only [Scene.ids, Canvas.scene]
  rw [shows.series, shows.parametric, shows.annotations]
  exact element.ids_shown _ _

/-- Elements do not affect each other. The scene of some elements and then others is that of the
former with what the latter draw after it, in the same frame. Nothing around a single element
depends on it, so that to replace, break or remove it changes no more than the one entry that it
has, if it has any. -/
theorem assemble_append (first second : List Element) :
    ∃ a b, assemble (configuration.withElements first) resolution control = .ok a ∧
      assemble (configuration.withElements second) resolution control = .ok b ∧ a.SameFrame b ∧
      assemble (configuration.withElements (first ++ second)) resolution control =
        .ok (a.followedBy b) ∧
      ∀ element, ∃ own,
        assemble (configuration.withElements [element]) resolution control = .ok own ∧
          (own.ids = [] ∨ own.ids = [element.id]) ∧
          assemble (configuration.withElements (first ++ element :: second)) resolution control =
            .ok (a.followedBy (own.followedBy b)) := by
  obtain ⟨a, b, ha, hb, frame, both⟩ :=
    assemble_followedBy configuration resolution control first second
  refine ⟨a, b, ha, hb, frame, both, fun element => ?_⟩
  obtain ⟨own, ho, ids⟩ := assemble_single configuration resolution control element
  refine ⟨own, ho, ids, ?_⟩
  obtain ⟨own', b', ho', hb', -, tail⟩ :=
    assemble_followedBy configuration resolution control [element] second
  cases ho.symm.trans ho'
  cases hb.symm.trans hb'
  obtain ⟨a', rest, ha', hrest, -, whole⟩ :=
    assemble_followedBy configuration resolution control first ([element] ++ second)
  cases ha.symm.trans ha'
  cases tail.symm.trans hrest
  exact whole

end LessonPlot
