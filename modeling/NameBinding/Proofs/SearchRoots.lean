import NameBinding.Discovery
import NameBinding.Proofs.Distinct
import NameBinding.Proofs.NormalPath

/-!
The roots that are searched. Each is a normal form without a slash at the end, and stands once,
where the first path that comes to it stands. So the roots are their own roots, and it makes no
difference whether a path is written with a slash or with a slash and a dot at its end.
-/

namespace NameBinding

/-- The folder that is searched for an import root: its normal form, without a slash at the end. -/
def Path.searched (root : Text) : Path := { (ofText root).normalize with trailing := false }

namespace Path

theorem searched_eq (text : Text) : searched text = (ofText text).bare := rfl

/-- Nothing but dots below a path makes no difference to its root. -/
theorem searched_append {text : Text} (htext : text ≠ []) (rest : Text)
    (hrest : ∀ name ∈ (ofText rest).names, name = here) :
    searched (text ++ Text.slash :: rest) = searched text := by
  have hlonger : (ofText (text ++ Text.slash :: rest)).isEmpty = false := by
    simp [isEmpty_ofText]
  have hshorter : (ofText text).isEmpty = false := by
    simpa [isEmpty_ofText] using htext
  have habsolute := absolute_ofText_append htext (Text.slash :: rest)
  have hreduct : (ofText (text ++ Text.slash :: rest)).reduct = (ofText text).reduct := by
    rw [reduct, reduct, habsolute, names_ofText_append, List.foldl_append,
      foldl_push_dots _ _ hrest]
  rw [searched_eq, searched_eq, bare_eq hlonger, bare_eq hshorter, habsolute, hreduct]

theorem isBare_searched {text : Text} (h : text ≠ []) : (searched text).IsBare :=
  isBare_bare (by simpa [isEmpty_ofText] using h)

/-- The root of a written path is read back from how it is written itself. -/
theorem ofText_toText_searched {text : Text} (h : text ≠ []) :
    ofText (searched text).toText = searched text := by
  have hnonempty : (ofText text).isEmpty = false := by simpa [isEmpty_ofText] using h
  have hnames := isName_bare hnonempty fun _ hname => isName_of_mem_ofText hname
  exact ofText_toText (searched text).absolute hnames

end Path

namespace Discovery

/-- What the paths that are not empty come to, one by one. -/
def candidates (texts : List Text) : List Path := (texts.filter (!·.isEmpty)).map Path.searched

theorem searchRoots_eq (texts : List Text) :
    searchRoots (texts.map Path.ofText) = (candidates texts).eraseDups := by
  have hkept : (texts.map Path.ofText).filter (!·.isEmpty) =
      (texts.filter (!·.isEmpty)).map Path.ofText := by
    rw [List.filter_map]
    congr 1
    refine List.filter_congr fun text _ => ?_
    rw [Function.comp_apply, Path.isEmpty_ofText]
  rw [searchRoots, hkept, List.map_map]
  rfl

theorem mem_searchRoots {folder : Path} {texts : List Text} :
    folder ∈ searchRoots (texts.map Path.ofText) ↔
      ∃ root ∈ texts, root ≠ [] ∧ Path.searched root = folder := by
  rw [searchRoots_eq, List.mem_eraseDups, candidates]
  simp [and_assoc]

/-- Paths in the form of roots are their own roots, if none stands twice. -/
theorem searchRoots_of_isBare {roots : List Path} (hbare : ∀ root ∈ roots, root.IsBare)
    (hnodup : roots.Nodup) : searchRoots roots = roots := by
  have hfilter : roots.filter (!·.isEmpty) = roots := by
    rw [List.filter_eq_self]
    intro root hroot
    simp [(hbare root hroot).isEmpty]
  have hmap : roots.map Path.bare = roots := by
    rw [List.map_congr_left fun root hroot => (hbare root hroot).bare, List.map_id']
  rw [searchRoots, hfilter]
  change (roots.map Path.bare).eraseDups = roots
  rw [hmap, eraseDups_of_nodup hnodup]

/-- Search roots are canonical. None of them is empty and no two are equal; they are what the
paths that are not empty come to, in the order in which these come to them first; each is its own
normal form and is read back from how it is written; and the roots of the roots are the roots. A
slash, or a slash and a dot, at the end of a path makes no difference. -/
theorem searchRoots_canonical (texts : List Text) :
    let roots := searchRoots (texts.map Path.ofText)
    (∀ root ∈ roots, root.isEmpty = false ∧ root.normalize = root ∧
      Path.ofText root.toText = root) ∧
    roots.Nodup ∧
    (∀ root, root ∈ roots ↔ ∃ text ∈ texts, text ≠ [] ∧ root.IsRootOf (Path.ofText text)) ∧
    (roots.Pairwise fun earlier later =>
      (candidates texts).idxOf earlier < (candidates texts).idxOf later) ∧
    searchRoots roots = roots ∧
    ∀ (before after : List Text) (text : Text), texts = before ++ text :: after → text ≠ [] →
      ∀ ending ∈ (["/", "/."] : List Text),
        searchRoots ((before ++ (text ++ ending) :: after).map Path.ofText) = roots := by
  intro roots
  have hroots : roots = (candidates texts).eraseDups := searchRoots_eq texts
  have hnodup : roots.Nodup := hroots ▸ nodup_eraseDups (candidates texts)
  have hbare : ∀ root ∈ roots, root.IsBare := by
    intro root hroot
    obtain ⟨text, -, hnonempty, rfl⟩ := mem_searchRoots.mp hroot
    exact Path.isBare_searched hnonempty
  refine ⟨fun root hroot => ⟨(hbare root hroot).isEmpty, (hbare root hroot).normalize, ?_⟩,
    hnodup, fun root => ?_, ?_, searchRoots_of_isBare hbare hnodup, ?_⟩
  · obtain ⟨text, -, hnonempty, rfl⟩ := mem_searchRoots.mp hroot
    exact Path.ofText_toText_searched hnonempty
  · rw [mem_searchRoots]
    refine exists_congr fun text => and_congr_right fun _ => and_congr_right fun hnonempty => ?_
    rw [Path.searched_eq, Path.bare_eq_iff (by simpa [Path.isEmpty_ofText] using hnonempty)]
  · rw [hroots]
    exact pairwise_idxOf_eraseDups (candidates texts)
  · rintro before after text rfl hnonempty ending hending
    have hsame : Path.searched (text ++ ending) = Path.searched text := by
      rcases List.mem_cons.mp hending with rfl | hdot
      · exact Path.searched_append hnonempty [] (by decide)
      · rw [List.mem_singleton.mp hdot]
        exact Path.searched_append hnonempty "." (by decide)
    rw [hroots, searchRoots_eq, candidates, candidates]
    simp [hnonempty, hsame]

/-- Four ways to write one folder, and a path that goes back on itself. -/
theorem searchRoots_canonical_sports :
    let texts (ending : Text) : List Text :=
      ["lib/./sports", "", "../a/..", "lib//sports" ++ ending, "/..", "a/../lib/sports/"]
    let roots := searchRoots ((texts []).map Path.ofText)
    roots.map Path.toText = ["lib/sports", "..", "/"] ∧ searchRoots roots = roots ∧
      searchRoots ((texts "/.").map Path.ofText) = roots := by
  intro texts roots
  obtain ⟨-, -, -, -, hagain, hending⟩ := searchRoots_canonical (texts [])
  exact ⟨by decide, hagain,
    hending ["lib/./sports", "", "../a/.."] ["/..", "a/../lib/sports/"] "lib//sports" rfl
      (by decide) "/." (by decide)⟩

end Discovery

end NameBinding
