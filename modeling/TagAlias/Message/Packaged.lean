import TagAlias.Text.CodePoint
/-!
# Packaged texts of messages

The texts in English that stand where a project gives no others.
-/
namespace TagAlias.Packaged

def language : Str := "en"

def templates : List (Str × Str) :=
  [("error.config", "💥 Invalid [tool.innerbind] configuration: \x7berror\x7d"),
    ("transform.file.success", "✅ Aliased inner components in \x7bpath\x7d: \x7bnames\x7d"),
    ("transform.file.unchanged", "\x7bpath\x7d: nothing to alias"),
    ("transform.file.would_change", "⚠️  \x7bpath\x7d would gain aliases: \x7bnames\x7d"),
    ("transform.file.error", "💥 \x7bpath\x7d:\x7bline\x7d:\x7bcolumn\x7d: \x7bmessage\x7d"),
    ("transform.file.read_error", "💥 Could not read \x7bpath\x7d: \x7berror\x7d"),
    ("transform.member_root", "⚠️  \x7bpath\x7d:\x7bline\x7d:\x7bcolumn\x7d: <\x7bname\x7d.…> in \x7bmethod\x7d was aliased to this.\x7btarget\x7d; import or declare \x7bname\x7d if it is a namespace"),
    ("transform.run.complete", "✨ Aliased inner components in \x7bcount\x7d file(s)."),
    ("transform.run.clean", "✨ Nothing to alias (\x7bcount\x7d file(s) checked)."),
    ("transform.run.check_failed", "⚠️  \x7bcount\x7d file(s) would change."),
    ("transform.run.failed", "💥 \x7bcount\x7d file(s) failed to transform.")]

end TagAlias.Packaged
