import Rulebook.Store.Column
import Rulebook.Store.Writes

/-!
Packs and regulations: making, changing and listing them. A tenant sees and changes its own ones
only; lists start with the newest.
-/
namespace Rulebook.Catalogue

def createPack (caller : Caller) (draft : PackDraft) : Txn Pack := do
  let name ← Txn.encoded draft.name
  let authority ← Txn.encoded draft.authority
  let description ← Txn.encoded? draft.description
  let status ← Txn.encoded draft.status
  let row ← Txn.newRow caller.tenant
  let p : Pack := { row with name, authority, description, status }
  Txn.addPack p
  return p

def listPacks (caller : Caller) : Txn (List Pack) := do
  return newestFirst (·.createdAt) (ownRows (← get).packs caller.tenant)

def updatePack (caller : Caller) (id : Uuid) (change : PackChange) : Txn Pack := do
  let p ← Txn.ownPack caller.tenant id
  let name ← Txn.encoded? change.name
  let authority ← Txn.encoded? change.authority
  let description ← Txn.encoded? change.description
  let status ← Txn.encoded? change.status
  Txn.savePack p { p with
    name := name.getD p.name
    authority := authority.getD p.authority
    description := description.or p.description
    status := status.getD p.status }

/-- Records a regulation. The pack that it names, if any, has to be there. -/
def createRegulation (caller : Caller) (draft : RegulationDraft) : Txn Regulation := do
  if let some pack := draft.pack then discard <| Txn.ownPack caller.tenant pack
  let authority ← Txn.encoded draft.authority
  let title ← Txn.encoded draft.title
  let citation ← Txn.encoded? draft.citation
  let sourceUrl ← Txn.encoded? draft.sourceUrl
  let rawText ← Txn.encoded? draft.rawText
  let summary ← Txn.encoded? draft.summary
  let status ← Txn.encoded draft.status
  let row ← Txn.newRow caller.tenant
  let r : Regulation := { row with
    pack := draft.pack, authority, title, citation, sourceUrl,
    effectiveDate := draft.effectiveDate, tags := draft.tags, rawText, summary, status }
  Txn.addRegulation r
  return r

/-- The regulations of a tenant, or of one of its packs. -/
def listRegulations (caller : Caller) (pack : Option Uuid) : Txn (List Regulation) := do
  let own := ownRows (← get).regulations caller.tenant
  return newestFirst (·.createdAt) (own.filter fun r => pack.isNone || r.pack == pack)

end Rulebook.Catalogue
