import Dlx.Isa.Catalog

/-!
# The built-in instruction set

The opcodes of the machine, by format. The opcode number of format R names a group, integer or
floating point, and the function code the operation in it.

The instruction set comes as definition texts. `Catalog.builtin` is the catalog that they are loaded
to, written out.
-/

namespace Dlx
namespace Catalog

def opcodesI : List (String × UInt32) :=
  [("beqz", 4), ("bnez", 5), ("bfpt", 6), ("bfpf", 7), ("addi", 8), ("addui", 9), ("subi", 10),
    ("subui", 11), ("andi", 12), ("ori", 13), ("xori", 14), ("lhi", 15), ("rfe", 16), ("trap", 17),
    ("jr", 18), ("jalr", 19), ("slli", 20), ("srli", 22), ("srai", 23), ("seqi", 24), ("snei", 25),
    ("slti", 26), ("sgti", 27), ("slei", 28), ("sgei", 29), ("lb", 32), ("lh", 33), ("lw", 35),
    ("lbu", 36), ("lhu", 37), ("lf", 38), ("ld", 39), ("sb", 40), ("sh", 41), ("sw", 43),
    ("sf", 46), ("sd", 47), ("sequi", 48), ("sneui", 49), ("sltui", 50), ("sgtui", 51),
    ("sleui", 52), ("sgeui", 53)]

def opcodesJ : List (String × UInt32) :=
  [("j", 2), ("jal", 3)]

/-- The integer operations of format R with their function codes. -/
def integerOperations : List (String × Int) :=
  [("nop", 0), ("sll", 4), ("srl", 6), ("sra", 7), ("add", 32), ("addu", 33), ("sub", 34),
    ("subu", 35), ("and", 36), ("or", 37), ("xor", 38), ("seq", 40), ("sne", 41), ("slt", 42),
    ("sgt", 43), ("sle", 44), ("sge", 45), ("movf", 50), ("movd", 51), ("movfp2i", 52),
    ("movi2fp", 53), ("sequ", 16), ("sneu", 17), ("sltu", 18), ("sgtu", 19), ("sleu", 20),
    ("sgeu", 21)]

/-- The floating point operations of format R with their function codes. -/
def floatOperations : List (String × Int) :=
  [("addf", 0), ("subf", 1), ("multf", 2), ("divf", 3), ("addd", 4), ("subd", 5), ("multd", 6),
    ("divd", 7), ("cvtf2d", 8), ("cvtf2i", 9), ("cvtd2f", 10), ("cvtd2i", 11), ("cvti2f", 12),
    ("cvti2d", 13), ("mult", 14), ("div", 15), ("eqf", 16), ("nef", 17), ("ltf", 18), ("gtf", 19),
    ("lef", 20), ("gef", 21), ("multu", 22), ("divu", 23), ("eqd", 24), ("ned", 25), ("ltd", 26),
    ("gtd", 27), ("led", 28), ("ged", 29)]

/-- The catalog of the built-in instruction set. -/
def builtin : Catalog where
  entries :=
    opcodesI.map (fun (name, number) => ⟨utf8 name, number, .i, Descriptor.noFunction⟩) ++
      opcodesJ.map (fun (name, number) => ⟨utf8 name, number, .j, Descriptor.noFunction⟩) ++
      integerOperations.map (fun (name, function) => ⟨utf8 name, 0, .r, function⟩) ++
      floatOperations.map (fun (name, function) => ⟨utf8 name, 1, .r, function⟩)

/-- The definition texts of the machine, each with the format of its records. -/
def definitionTexts : List (Format × Bytes) :=
  [(.i,
      ["beqz\t4\nbnez\t5\nbfpt\t6\nbfpf\t7\naddi\t8\naddui\t9\nsubi\t10\nsubui\t11\n",
        "andi\t12\nori\t13\nxori\t14\nlhi\t15\nrfe\t16\ntrap\t17\njr\t18\njalr\t19\n",
        "slli\t20\nsrli\t22\nsrai\t23\nseqi\t24\nsnei\t25\nslti\t26\nsgti\t27\nslei\t28\n",
        "sgei\t29\nlb\t32\nlh\t33\nlw\t35\nlbu\t36\nlhu\t37\nlf\t38\nld\t39\nsb\t40\nsh\t41\n",
        "sw\t43\nsf\t46\nsd\t47\nsequi\t48\nsneui\t49\nsltui\t50\nsgtui\t51\nsleui\t52\n",
        "sgeui\t53\n"].flatMap utf8),
    (.j, utf8 "j\t2\njal\t3\n"),
    (.r,
      ["nop\t0\t0\nsll\t0\t4\nsrl\t0\t6\nsra\t0\t7\nadd\t0\t32\naddu\t0\t33\nsub\t0\t34\n",
        "subu\t0\t35\nand\t0\t36\nor\t0\t37\nxor\t0\t38\nseq\t0\t40\nsne\t0\t41\nslt\t0\t42\n",
        "sgt\t0\t43\nsle\t0\t44\nsge\t0\t45\nmovf\t0\t50\nmovd\t0\t51\nmovfp2i\t0\t52\n",
        "movi2fp\t0\t53\nsequ\t0\t16\nsneu\t0\t17\nsltu\t0\t18\nsgtu\t0\t19\nsleu\t0\t20\n",
        "sgeu\t0\t21\naddf\t1\t0\nsubf\t1\t1\nmultf\t1\t2\ndivf\t1\t3\naddd\t1\t4\n",
        "subd\t1\t5\nmultd\t1\t6\ndivd\t1\t7\ncvtf2d\t1\t8\ncvtf2i\t1\t9\ncvtd2f\t1\t10\n",
        "cvtd2i\t1\t11\ncvti2f\t1\t12\ncvti2d\t1\t13\nmult\t1\t14\ndiv\t1\t15\neqf\t1\t16\n",
        "nef\t1\t17\nltf\t1\t18\ngtf\t1\t19\nlef\t1\t20\ngef\t1\t21\nmultu\t1\t22\n",
        "divu\t1\t23\neqd\t1\t24\nned\t1\t25\nltd\t1\t26\ngtd\t1\t27\nled\t1\t28\n",
        "ged\t1\t29\n"].flatMap utf8)]

end Catalog
end Dlx
