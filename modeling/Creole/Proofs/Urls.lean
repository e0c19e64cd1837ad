import Creole.Proofs.Docbook.Urls
import Creole.Proofs.Html.Urls

/-!
# Both formats filter the same URLs

A render passes every URL through a filter that the host chooses.  Nothing else of what is
written hangs on it: whichever filter it is, HTML and Docbook are the same around the same
URLs, each of which the filter is applied to once (`render_around_urls`).
-/

namespace Creole

/-- If services stand behind all links and images, then the URLs of those that are shown and
lead anywhere are settled before the filter is known.  The HTML is fixed text around the
URLs, each filtered once and escaped; the article is one tree with the filtered URLs put into
`xl:href` and `fileref` attributes, in the same order. -/
theorem render_around_urls {handlers : Handlers} {services : HandlerName → Service} {root : Node}
    (h : root.Served handlers services) (cssClass language : Text) :
    (∃ (first : Text) (rest : List (Text × Text)), rest.map Prod.fst = root.urls services ∧
      ∀ filter, Html.render cssClass handlers filter root =
        first ++ rest.flatMap fun (url, behind) => escape (filter url) ++ behind) ∧
      ∃ marked : Xml.Marked, marked.urls = root.urls services ∧
        ∀ filter, (Docbook.article language handlers filter root).toXml = marked.fill filter :=
  ⟨(Html.fixedAround_render h cssClass).exists_eq, Docbook.exists_marked_article h language⟩

/-! ### An example -/

/-- The services of a wiki without pages. -/
def sampleServices : HandlerName → Service
  | .image => .images { store := ({} : Archive).toStore } "pic".toList
  | _ => .anchors { store := ({} : Archive).toStore }

/-- A heading with a link to a URL, then a link that leads nowhere and two images by name,
one of them shown as an anchor. -/
def sampleFigures : Node :=
  let page : PageRef := .onLocal "Home".toList
  let figure (name : String) : Target := { page := some name.toList }
  .mk .page
    [.heading 2
      [.leaf (.link { source := [], title := "t".toList, page, handler := .link,
                      target := { uri := some "http://x/'".toList } })],
      .mk .paragraph
        [.leaf (.link { source := "#".toList, title := [], page, handler := .link, target := {} }),
          .leaf (.image
            { source := [], title := "b".toList, page, handler := .image,
              target := figure "b.png" }),
          .leaf (.image
            { source := [], title := "c".toList, page, handler := .custom 0,
              target := figure "c.png" })]]

theorem render_around_urls_sampleFigures :
    sampleFigures.Served Html.sampleHandlers sampleServices ∧
      sampleFigures.urls sampleServices =
        ["http://x/'".toList, "/pages/Home/attachments/b.png".toList, "/pages/c.png".toList] ∧
      ∃ marked : Xml.Marked, marked.urls =
          ["http://x/'".toList, "/pages/Home/attachments/b.png".toList, "/pages/c.png".toList] ∧
        ∀ filter, (Docbook.article "en".toList Html.sampleHandlers filter sampleFigures).toXml =
          marked.fill filter := by
  have hserved : sampleFigures.Served Html.sampleHandlers sampleServices := by
    intro link hlink
    cases link.handler <;> rfl
  have hurls : sampleFigures.urls sampleServices =
      ["http://x/'".toList, "/pages/Home/attachments/b.png".toList, "/pages/c.png".toList] := by
    decide +kernel
  have harticle := (render_around_urls hserved "c".toList "en".toList).2
  rw [hurls] at harticle
  exact ⟨hserved, hurls, harticle⟩

end Creole
